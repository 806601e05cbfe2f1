import PollServer.Lib.Endless
import PollServer.Read.Offer

/-! How often a receive is retried. The retries of `recvFixedBytes` are counted, and end with the
fifth major failure; those of `recvAsManyAsPossibleAsync` start to count again with every call. -/

namespace PollServer

open Lib

/-- An errno after which `handleError` waits a while before the next attempt. -/
def Errno.recoverable : Errno → Bool
  | .eintr | .enomem | .ealready | .etimedout => true
  | _ => false

/-- An errno after which there is a next attempt, as long as attempts are left. -/
def Errno.retried (errorCode : Errno) : Bool := errorCode == .eagain || errorCode.recoverable

/-- An errno that an assert of `handleError` excludes. -/
def Errno.excluded : Errno → Bool
  | .enotsock | .enotconn | .efault | .eopnotsupp => true
  | _ => false

/-- The major failures among these errnos: five `EAGAIN`s are one. -/
def majorFailures (errnos : List Errno) : ℕ :=
  errnos.countP Errno.recoverable + errnos.count .eagain / 5

/-- How the outcomes of a loop's calls are read: the errno of one that fails, and the bytes of one
that does not. -/
structure Outcomes (E : Type) where
  errno? : E → Option Errno
  bytes : E → ℕ

namespace Outcomes

variable {E : Type} (o : Outcomes E) (front : List E)

def errnos : List Errno := front.filterMap o.errno?

def gained : ℕ := (front.map o.bytes).sum

/-- After this outcome a loop goes on, as long as it lacks bytes and has attempts left. -/
def goesOn (e : E) : Bool :=
  match o.errno? e with
  | some errorCode => errorCode.retried
  | none => 0 < o.bytes e

end Outcomes

def RecvEvent.errno? : RecvEvent → Option Errno
  | .fail errorCode => some errorCode
  | .arrive _ => none

def recvOutcomes : Outcomes RecvEvent where
  errno? := RecvEvent.errno?
  bytes
    | .arrive bytes => bytes.length
    | .fail _ => 0

/-- The counters after these errnos, with attempts left. -/
structure Tallies (v : Attempt) (errnos : List Errno) : Prop where
  async : v.asyncFailCounter = errnos.count .eagain % 5
  major : v.majorFailCount = majorFailures errnos
  few : v.majorFailCount < 5

/-- All that was counted, in fifths of a major failure. -/
def Attempt.fifths (v : Attempt) : ℕ := 5 * v.majorFailCount + v.asyncFailCounter

theorem tallies_start : Tallies {} [] := ⟨rfl, rfl, by decide⟩

theorem Tallies.fifths_le {v : Attempt} {errnos : List Errno} (h : Tallies v errnos) :
    v.fifths ≤ 24 := by
  have hasync := h.async
  have hfew := h.few
  rw [Attempt.fifths]
  omega

theorem Tallies.few_before {v : Attempt} {errnos : List Errno} (h : Tallies v errnos) :
    majorFailures errnos < 5 := h.major ▸ h.few

/-- What `handleError` makes of an errno, on counters that are right. -/
inductive Handled (b : Build) (errnos : List Errno) (errorCode : Errno) (v : Attempt) : Prop where
  | aborted (stop : Stop) (h : handleError b errorCode v = .error stop)
      (hexcluded : errorCode.excluded = true) (hfinal : errorCode.retried = false)
      (hfew : majorFailures (errnos ++ [errorCode]) < 5)
  | given_up (v' : Attempt) (h : handleError b errorCode v = .ok (false, v'))
      (hfinal : errorCode.retried = false) (hfew : majorFailures (errnos ++ [errorCode]) < 5)
  | fifth (v' : Attempt) (h : handleError b errorCode v = .ok (true, v'))
      (hmajor : v'.majorFailCount = 5) (hfifth : majorFailures (errnos ++ [errorCode]) = 5)
  | retried (v' : Attempt) (h : handleError b errorCode v = .ok (true, v'))
      (hagain : errorCode.retried = true) (ht : Tallies v' (errnos ++ [errorCode]))
      (hlt : v.fifths < v'.fifths)

theorem majorFailures_concat (errnos : List Errno) (errorCode : Errno) :
    majorFailures (errnos ++ [errorCode]) =
      errnos.countP Errno.recoverable + (if errorCode.recoverable then 1 else 0) +
        (errnos.count .eagain + if errorCode = .eagain then 1 else 0) / 5 := by
  rw [majorFailures, List.countP_append, List.count_append, List.countP_singleton, List.count_singleton]
  simp only [beq_iff_eq]

theorem handleError_eagain (b : Build) (v : Attempt) : handleError b .eagain v =
    if 5 ≤ v.asyncFailCounter + 1 then
      .ok (true, { v with asyncFailCounter := 0, majorFailCount := v.majorFailCount + 1 })
    else .ok (true, { v with asyncFailCounter := v.asyncFailCounter + 1 }) := by
  simp [handleError, assert, bind, Except.bind, pure, Except.pure]

theorem handleError_recoverable (b : Build) {errorCode : Errno} (h : errorCode.recoverable = true)
    (v : Attempt) : handleError b errorCode v =
      .ok (true, { v with majorFailCount := v.majorFailCount + 1 }) := by
  cases errorCode <;>
    first
      | (simp [handleError, assert, bind, Except.bind, pure, Except.pure]; done)
      | cases h

theorem handleError_other (b : Build) {errorCode : Errno} (h : errorCode.recoverable = false)
    (ha : errorCode ≠ .eagain) (v : Attempt) :
    (∃ stop, handleError b errorCode v = .error stop ∧ errorCode.excluded = true) ∨
      ∃ v', handleError b errorCode v = .ok (false, v') := by
  cases errorCode <;> cases hb : b.asserts <;>
    simp_all [Errno.recoverable, Errno.excluded, handleError, assert, bind, Except.bind, pure, Except.pure]

theorem handleError_handled (b : Build) {errnos : List Errno} {v : Attempt} (h : Tallies v errnos)
    (errorCode : Errno) : Handled b errnos errorCode v := by
  obtain ⟨hasync, hmajor, hfew⟩ := h
  have hconcat := majorFailures_concat errnos errorCode
  have hcount : (errnos ++ [errorCode]).count .eagain =
      errnos.count .eagain + if errorCode = .eagain then 1 else 0 := by
    rw [List.count_append, List.count_singleton]
    simp only [beq_iff_eq]
  have hold : majorFailures errnos = errnos.countP Errno.recoverable + errnos.count .eagain / 5 := rfl
  by_cases he : errorCode = .eagain
  · subst he
    have hcall := handleError_eagain b v
    rw [if_pos rfl] at hconcat hcount
    simp only [Errno.recoverable, Bool.false_eq_true, if_false, Nat.add_zero] at hconcat
    by_cases h5 : 5 ≤ v.asyncFailCounter + 1
    · rw [if_pos h5] at hcall
      by_cases h4 : v.majorFailCount = 4
      · exact .fifth _ hcall (by dsimp only; omega) (by omega)
      · refine .retried _ hcall rfl ⟨?_, ?_, ?_⟩ ?_ <;> simp only [Attempt.fifths] <;> omega
    · rw [if_neg h5] at hcall
      refine .retried _ hcall rfl ⟨?_, ?_, ?_⟩ ?_ <;> simp only [Attempt.fifths] <;> omega
  rw [if_neg he] at hconcat hcount
  cases hr : errorCode.recoverable with
  | true =>
    have hcall := handleError_recoverable b hr v
    rw [hr, if_pos rfl] at hconcat
    by_cases h4 : v.majorFailCount = 4
    · exact .fifth _ hcall (by dsimp only; omega) (by omega)
    · refine .retried _ hcall (by simp [Errno.retried, hr]) ⟨?_, ?_, ?_⟩ ?_ <;>
        simp only [Attempt.fifths] <;> omega
  | false =>
    have hfinal : errorCode.retried = false := by simp [Errno.retried, he, hr]
    have hless : majorFailures (errnos ++ [errorCode]) < 5 := by
      rw [hr, if_neg Bool.false_ne_true] at hconcat
      omega
    rcases handleError_other b hr he v with ⟨stop, hcall, hexcluded⟩ | ⟨v', hcall⟩
    · exact .aborted stop hcall hexcluded hfinal hless
    · exact .given_up v' hcall hfinal hless

section Ended

variable {E : Type} {o : Outcomes E} {size : ℕ} {room : Prop} {front : List E} {r : Except Stop Result}

/-- A loop that is to take `size` bytes has reason to go on after `front`. -/
structure Outcomes.Lacks (o : Outcomes E) (size : ℕ) (front : List E) : Prop where
  gained : o.gained front < size
  few : majorFailures (o.errnos front) < 5
  goesOn : ∀ e ∈ front, o.goesOn e = true

/-- What ends such a loop on `front`, and what it returns: it has its bytes, the last outcome was no
byte or an errno that is not retried, or the fifth major failure. With `room` for what it stores, only
an assert can end it without a result. -/
inductive Ended (o : Outcomes E) (size : ℕ) (room : Prop) (front : List E) (r : Except Stop Result) :
    Prop where
  | whole (result : Result) (h : size ≤ o.gained front) (hfew : majorFailures (o.errnos front) < 5)
      (hr : r = .ok result)
  | nothing (result : Result) (before : List E) (e : E) (hfront : front = before ++ [e])
      (he : o.errno? e = none) (h0 : o.bytes e = 0) (hfew : majorFailures (o.errnos front) < 5)
      (hr : r = .ok result)
  | final (before : List E) (e : E) (errorCode : Errno) (hfront : front = before ++ [e])
      (he : o.errno? e = some errorCode) (hfinal : errorCode.retried = false)
      (hfew : majorFailures (o.errnos front) < 5)
      (hr : ∀ stop, r = .error stop → errorCode.excluded = true)
  | fifth (result : Result) (h : majorFailures (o.errnos front) = 5) (hr : r = .ok result)
      (hclosed : result.socketClosed = true)
  | overrun (hroom : ¬room) (hfew : majorFailures (o.errnos front) < 5) (hr : r = .error .outOfBounds)

/-- A loop has made `calls` calls, which it had reason for, and has ended. -/
structure Stops (o : Outcomes E) (size : ℕ) (room : Prop) (outcomes : ℕ → E) (calls : ℕ)
    (r : Except Stop Result) : Prop where
  lacks : ∀ j < calls, o.Lacks size (firsts outcomes j)
  ended : Ended o size room (firsts outcomes calls) r

/-- At the end of a loop that returns `r` and the calls made, with `before` of them made earlier. -/
structure Over (o : Outcomes E) (size : ℕ) (room : Prop) (before : ℕ) (front : List E)
    (r : Except Stop Result × ℕ) : Prop where
  calls : r.2 = before + front.length
  ended : Ended o size room front r.1

theorem errnos_concat_none {e : E} (h : o.errno? e = none) :
    o.errnos (front ++ [e]) = o.errnos front := by
  rw [Outcomes.errnos, List.filterMap_append, List.filterMap_cons_none h]
  exact List.append_nil _

theorem errnos_concat_some {e : E} {errorCode : Errno} (h : o.errno? e = some errorCode) :
    o.errnos (front ++ [e]) = o.errnos front ++ [errorCode] := by
  rw [Outcomes.errnos, List.filterMap_append, List.filterMap_cons_some h]
  rfl

theorem gained_concat (o : Outcomes E) (front : List E) (e : E) :
    o.gained (front ++ [e]) = o.gained front + o.bytes e := by
  simp [Outcomes.gained]

theorem goesOn_concat {e : E} (h : ∀ e' ∈ front, o.goesOn e' = true) (he : o.goesOn e = true) :
    ∀ e' ∈ front ++ [e], o.goesOn e' = true := by
  intro e' he'
  rcases List.mem_append.mp he' with he' | he'
  · exact h e' he'
  · exact List.mem_singleton.mp he' ▸ he

/-- A turn that fails, in a loop with `total` bytes that has made `made` calls by its end. The loop
is left as `handleError` says, or retried with what it counted. -/
theorem turn_failed {S : Type} {loop : S → List E → Except Stop Result × ℕ} {μ : S → ℕ}
    {I : List E → S → Prop} {s : S} {e : E} {errorCode : Errno} {v : Attempt} {before made : ℕ}
    (b : Build) (total : ℕ) (ht : Tallies v (o.errnos front)) (hgoes : ∀ e ∈ front, o.goesOn e = true)
    (he : o.errno? e = some errorCode) (hmade : made = before + (front ++ [e]).length)
    (hstop : ∀ stop, handleError b errorCode v = .error stop →
      ∀ more, loop s (e :: more) = (.error stop, made))
    (hquit : ∀ v', handleError b errorCode v = .ok (false, v') →
      ∀ more, loop s (e :: more) = (.ok { v'.result with noOfBytes := total }, made))
    (hclose : ∀ v', handleError b errorCode v = .ok (true, v') → 5 ≤ v'.majorFailCount →
      ∀ more, loop s (e :: more) =
        (.ok { v'.result with noOfBytes := total, socketClosed := true }, made))
    (hretry : ∀ v', handleError b errorCode v = .ok (true, v') → v'.majorFailCount < 5 →
      Tallies v' (o.errnos (front ++ [e])) → (∀ e' ∈ front ++ [e], o.goesOn e' = true) →
        v.fifths < v'.fifths → v'.fifths ≤ 24 →
          ∃ s', I (front ++ [e]) s' ∧ μ s' < μ s ∧ ∀ more, loop s (e :: more) = loop s' more) :
    Turn loop μ I (Over o size room before) front s e := by
  have hfails : o.errnos (front ++ [e]) = o.errnos front ++ [errorCode] := errnos_concat_some he
  rcases handleError_handled b ht errorCode with
    ⟨stop, hcall, hexcluded, hfinal, hfew⟩ | ⟨v', hcall, hfinal, hfew⟩ | ⟨v', hcall, hmajor, hfifth⟩ |
      ⟨v', hcall, hagain, ht', hlt⟩
  · rw [← hfails] at hfew
    exact .ends _ ⟨hmade, .final front e errorCode rfl he hfinal hfew fun _ _ => hexcluded⟩
      (hstop stop hcall)
  · rw [← hfails] at hfew
    exact .ends _ ⟨hmade, .final front e errorCode rfl he hfinal hfew (by simp)⟩ (hquit v' hcall)
  · rw [← hfails] at hfifth
    exact .ends _ ⟨hmade, .fifth _ hfifth rfl rfl⟩ (hclose v' hcall hmajor.ge)
  · rw [← hfails] at ht'
    have hall := goesOn_concat hgoes (show o.goesOn e = true by simp only [Outcomes.goesOn, he, hagain])
    obtain ⟨s', hI, hμ, hloop⟩ := hretry v' hcall ht'.few ht' hall hlt ht'.fifths_le
    exact .goes s' hI hμ hloop

/-- A loop of retries whose turns all take it on, or end it, makes no more calls than it measures. -/
theorem stops_of_measure {S : Type} (loop : S → List E → Except Stop Result × ℕ) (μ : S → ℕ)
    (I : List E → S → Prop) {before : ℕ} {outcomes : ℕ → E}
    (hturn : ∀ front s, I front s →
      (∃ r, Over o size room before front r ∧ ∀ more, loop s more = r) ∨
        (o.Lacks size front ∧ 0 < μ s ∧
          ∀ i, Turn loop μ I (Over o size room before) front s (outcomes i))) {s : S} (hs : I [] s) :
    ∃ calls ≤ μ s, ∃ r, EndsOn (loop s) (firsts outcomes calls) (r, before + calls) ∧
      Stops o size room outcomes calls r := by
  obtain ⟨calls, hcalls, ⟨r, made⟩, hover, hends, hlacks⟩ := ends_of_measure hturn hs
  obtain rfl : made = before + calls := by
    rw [← length_firsts outcomes calls]
    exact hover.calls
  exact ⟨calls, hcalls, r, hends, hlacks, hover.ended⟩

/-- The attempts at a call that fails with `errorCode` again and again. -/
def Errno.attempts (errorCode : Errno) : ℕ := if errorCode = .eagain then 25 else 5

theorem majorFailures_replicate {errorCode : Errno} (h : errorCode.retried = true) (k : ℕ) :
    majorFailures (List.replicate k errorCode) = if errorCode = .eagain then k / 5 else k := by
  rw [majorFailures, List.countP_replicate, List.count_replicate]
  by_cases he : errorCode = .eagain
  · subst he
    simp [Errno.recoverable]
  · have hr : errorCode.recoverable = true := by simpa [Errno.retried, he] using h
    simp [he, hr]

theorem Stops.of_retried {e : E} {errorCode : Errno} {calls : ℕ} (he : o.errno? e = some errorCode)
    (h0 : o.bytes e = 0) (hagain : errorCode.retried = true) (hsize : 0 < size) (hroom : room)
    (h : Stops o size room (fun _ => e) calls r) :
    calls = errorCode.attempts ∧ ∃ result, r = .ok result ∧ result.socketClosed = true := by
  have hfront : ∀ j, firsts (fun _ => e) j = List.replicate j e := fun j => by simp [firsts]
  have hmajor : ∀ j, majorFailures (o.errnos (firsts (fun _ => e) j)) =
      if errorCode = .eagain then j / 5 else j := by
    intro j
    rw [hfront, Outcomes.errnos, List.filterMap_replicate_of_some he, majorFailures_replicate hagain]
  have hlast : ∀ before e', firsts (fun _ => e) calls = before ++ [e'] → o.errno? e' = some errorCode := by
    intro before e' heq
    have hmem : e' ∈ List.replicate calls e := by
      rw [← hfront, heq]
      exact List.mem_concat_self
    rw [List.eq_of_mem_replicate hmem, he]
  cases h.ended with
  | whole result hgained =>
    rw [hfront, Outcomes.gained, List.map_replicate, h0, List.sum_replicate, smul_zero] at hgained
    omega
  | nothing result before e' heq hnone =>
    rw [hlast before e' heq] at hnone
    cases hnone
  | final before e' errorCode' heq hsome hfinal =>
    rw [hlast before e' heq] at hsome
    cases hsome
    rw [hagain] at hfinal
    cases hfinal
  | fifth result hfifth hr hclosed =>
    refine ⟨?_, result, hr, hclosed⟩
    have hbefore := (h.lacks (calls - 1) ?_).few
    · rw [hmajor] at hfifth hbefore
      rw [Errno.attempts]
      split_ifs at hfifth hbefore ⊢ <;> omega
    · rw [hmajor] at hfifth
      split_ifs at hfifth <;> omega
  | overrun hno => exact absurd hroom hno

end Ended

section Recv

variable {n size : ℕ} {b : Build}

/-- What a receive returns when `events` are to come, and the calls of `recv` it has made. -/
def returned (f : Inbound n → Except Stop Result × Inbound n) (inb : Inbound n)
    (events : List RecvEvent) : Except Stop Result × ℕ :=
  let out := f { inb with events := events }
  (out.1, out.2.requests.length)

/-- What the loop of `recvFixedBytes` carries from turn to turn. -/
structure Receiving (n : ℕ) where
  buffer : Buffer n
  requests : List Request
  total : ℕ
  attempt : Attempt

def Receiving.loop (b : Build) (size : ℕ) (s : Receiving n) (events : List RecvEvent) :
    Except Stop Result × ℕ :=
  let out := recvLoop b true size events s.buffer s.requests s.total s.attempt
  (out.1, out.2.requests.length)

/-- Every turn takes a byte or counts a failure. -/
def Receiving.left (size : ℕ) (s : Receiving n) : ℕ := size - s.total + (24 - s.attempt.fifths)

/-- Between two turns, after `front`. -/
structure Receiving.Going (offset before : ℕ) (front : List RecvEvent) (s : Receiving n) : Prop where
  offset : s.buffer.offset = offset
  total : s.total = recvOutcomes.gained front
  tallies : Tallies s.attempt (recvOutcomes.errnos front)
  goesOn : ∀ e ∈ front, recvOutcomes.goesOn e = true
  calls : s.requests.length = before + front.length

/-- What a turn asks for, with the calls before it. -/
theorem Receiving.Going.requests {offset before : ℕ} {front : List RecvEvent} {s : Receiving n}
    (h : s.Going offset before front) (size : ℕ) (event : RecvEvent) :
    (s.requests ++ [(⟨s.buffer.offset + s.total, size - s.total⟩ : Request)]).length =
      before + (front ++ [event]).length := by
  rw [List.length_append, List.length_append, h.calls]
  exact Nat.add_assoc _ _ _

theorem Receiving.Going.arrive (hs : size < 2 ^ 64) {offset before : ℕ} {front : List RecvEvent}
    {s : Receiving n} (h : s.Going offset before front) (hlt : s.total < size) (bytes : List Byte) :
    Turn (Receiving.loop b size) (Receiving.left size) (Going offset before)
      (Over recvOutcomes size (offset + size ≤ n) before) front s (.arrive bytes) := by
  have hreqs := h.requests size (.arrive bytes)
  obtain ⟨buf, reqs, total, v⟩ := s
  obtain ⟨hoffset, htotal, htallies, hgoes, -⟩ := h
  dsimp only at hlt hoffset htotal htallies hreqs
  set request : Request := ⟨buf.offset + total, size - total⟩ with hrequest
  have hgained := gained_concat recvOutcomes front (.arrive bytes)
  rw [← htotal] at hgained
  change _ = total + bytes.length at hgained
  have hsame : recvOutcomes.errnos (front ++ [.arrive bytes]) = recvOutcomes.errnos front :=
    errnos_concat_none rfl
  have hfew : majorFailures (recvOutcomes.errnos (front ++ [.arrive bytes])) < 5 := by
    rw [hsame]
    exact htallies.few_before
  by_cases hgot : bytes.take (size - total) = []
  · have h0 : bytes = [] := by
      rcases List.take_eq_nil_iff.mp hgot with h0 | h0
      · omega
      · exact h0
    refine .ends (.ok { v.result with noOfBytes := total }, _)
      ⟨hreqs, .nothing _ front _ rfl rfl (congrArg List.length h0) hfew rfl⟩ fun more => ?_
    simp only [Receiving.loop, recvLoop, if_neg (not_le.mpr hlt), if_pos hgot, hrequest]
  have hpos := List.length_pos_iff.mpr hgot
  have hlen : (bytes.take (size - total)).length = min (size - total) bytes.length := List.length_take
  have hadd := addSize_of_lt (show total + (bytes.take (size - total)).length < 2 ^ 64 by omega)
  by_cases hroom : buf.offset + total + (bytes.take (size - total)).length ≤ n
  swap
  · have hstore := buf.store_of_lt (not_le.mp hroom)
    refine .ends (.error .outOfBounds, _) ⟨hreqs, .overrun (fun hn => absurd hn (by omega)) hfew rfl⟩
      fun more => ?_
    simp only [Receiving.loop, recvLoop, if_neg (not_le.mpr hlt), if_neg hgot, hstore, hrequest]
  have hstore := buf.store_of_le hroom
  by_cases hmore : (bytes.take (size - total)).length < bytes.length
  · refine .ends (.ok { v.result with noOfBytes := total + (bytes.take (size - total)).length }, _)
      ⟨hreqs, .whole _ (by omega) hfew rfl⟩ fun more => ?_
    simp only [Receiving.loop, recvLoop, if_neg (not_le.mpr hlt), if_neg hgot, hstore, hmore, or_true,
      if_true, hadd, hrequest]
  · have hgoesOn : recvOutcomes.goesOn (.arrive bytes) = true := decide_eq_true (show 0 < bytes.length by omega)
    refine .goes ⟨buf.stored total (bytes.take (size - total)), reqs ++ [request],
      total + (bytes.take (size - total)).length, v⟩
      ⟨(buf.stored_offset _ _).trans hoffset, ?_, ?_, goesOn_concat hgoes hgoesOn, hreqs⟩ ?_ fun more => ?_
    · dsimp only
      omega
    · rw [hsame]
      exact htallies
    · simp only [Receiving.left]
      omega
    · simp only [Receiving.loop, recvLoop, if_neg (not_le.mpr hlt), if_neg hgot, hstore, hmore,
        Bool.true_eq_false, or_self, if_false, hadd, hrequest]

theorem Receiving.Going.fail {offset before : ℕ} {front : List RecvEvent} {s : Receiving n}
    (h : s.Going offset before front) (hlt : s.total < size) (errorCode : Errno) :
    Turn (Receiving.loop b size) (Receiving.left size) (Going offset before)
      (Over recvOutcomes size (offset + size ≤ n) before) front s (.fail errorCode) := by
  have hreqs := h.requests size (.fail errorCode)
  obtain ⟨buf, reqs, total, v⟩ := s
  obtain ⟨hoffset, htotal, htallies, hgoes, -⟩ := h
  dsimp only at hlt hoffset htotal htallies hreqs
  set request : Request := ⟨buf.offset + total, size - total⟩ with hrequest
  have hgained := gained_concat recvOutcomes front (.fail errorCode)
  rw [← htotal] at hgained
  refine turn_failed b total htallies hgoes rfl hreqs (fun stop hcall more => ?_)
    (fun v' hcall more => ?_) (fun v' hcall hmajor more => ?_) fun v' hcall hmajor ht hall hless hle => ?_
  · simp only [Receiving.loop, recvLoop, if_neg (not_le.mpr hlt), Bool.true_eq_false, if_false, hcall,
      hrequest]
  · simp only [Receiving.loop, recvLoop, if_neg (not_le.mpr hlt), Bool.true_eq_false, if_false, hcall,
      hrequest]
  · simp only [Receiving.loop, recvLoop, if_neg (not_le.mpr hlt), Bool.true_eq_false, if_false, hcall,
      if_pos hmajor, hrequest]
  · refine ⟨⟨buf, reqs ++ [request], total, v'⟩, ⟨hoffset, hgained.symm, ht, hall, hreqs⟩, ?_,
      fun more => ?_⟩
    · simp only [Receiving.left]
      omega
    · simp only [Receiving.loop, recvLoop, if_neg (not_le.mpr hlt), Bool.true_eq_false, if_false, hcall,
        if_neg (not_le.mpr hmajor), hrequest]

theorem Receiving.Going.turn (hs : size < 2 ^ 64) {offset before : ℕ} {front : List RecvEvent}
    {s : Receiving n} (h : s.Going offset before front) (hlt : s.total < size) (event : RecvEvent) :
    Turn (Receiving.loop b size) (Receiving.left size) (Going offset before)
      (Over recvOutcomes size (offset + size ≤ n) before) front s event := by
  cases event with
  | arrive bytes => exact h.arrive hs hlt bytes
  | fail errorCode => exact h.fail hlt errorCode

theorem Receiving.Going.done {offset before : ℕ} {front : List RecvEvent} {s : Receiving n}
    (h : s.Going offset before front) (hle : size ≤ s.total) :
    ∃ r, Over recvOutcomes size (offset + size ≤ n) before front r ∧ ∀ more, s.loop b size more = r := by
  refine ⟨(.ok { s.attempt.result with noOfBytes := s.total }, s.requests.length),
    ⟨h.calls, .whole _ (hle.trans h.total.le) h.tallies.few_before rfl⟩, fun more => ?_⟩
  cases more with
  | nil => simp only [Receiving.loop, recvLoop, if_neg (not_lt.mpr hle)]
  | cons event rest => simp only [Receiving.loop, recvLoop, if_pos hle]

theorem recvFixedBytes_stops (b : Build) (hs : size < 2 ^ 64) (inb : Inbound n)
    (outcomes : ℕ → RecvEvent) :
    ∃ calls ≤ size + 24, ∃ r, EndsOn (returned (recvFixedBytes b size true) inb) (firsts outcomes calls)
      (r, inb.requests.length + calls) ∧
        Stops recvOutcomes size (inb.buffer.offset + size ≤ n) outcomes calls r := by
  have hstart : Receiving.Going inb.buffer.offset inb.requests.length []
      (⟨inb.buffer, inb.requests, 0, {}⟩ : Receiving n) :=
    ⟨rfl, rfl, tallies_start, fun _ he => absurd he List.not_mem_nil, (Nat.add_zero _).symm⟩
  refine stops_of_measure (Receiving.loop b size) (Receiving.left size) (Receiving.Going _ _)
    (fun front s h => ?_) hstart
  rcases le_or_gt size s.total with hle | hlt
  · exact .inl (h.done hle)
  · exact .inr ⟨⟨h.total.symm.trans_lt hlt, h.tallies.few_before, h.goesOn⟩,
      Nat.add_pos_left (Nat.sub_pos_of_lt hlt) _, fun i => h.turn hs hlt (outcomes i)⟩

section Opportunistic

/-- After this outcome the opportunistic receive calls itself again. -/
def RecvEvent.retried : RecvEvent → Bool
  | .fail errorCode => errorCode.recoverable
  | .arrive _ => false

theorem recvAsMany_retried (len : ℕ) {front : List RecvEvent} (h : ∀ event ∈ front, event.retried = true)
    (more : List RecvEvent) (buf : Buffer n) (reqs : List Request) :
    recvAsMany b len (front ++ more) buf reqs =
      recvAsMany b len more buf (reqs ++ List.replicate front.length ⟨buf.offset, len⟩) := by
  induction front generalizing reqs with
  | nil => rw [List.length_nil, List.replicate_zero, List.append_nil, List.nil_append]
  | cons event front ih =>
    have hevent := h event List.mem_cons_self
    cases event with
    | arrive bytes => cases hevent
    | fail errorCode =>
      have hcall := handleError_recoverable b hevent {}
      rw [List.cons_append, recvAsMany]
      simp only [hcall, ne_eq, not_true_eq_false, if_false]
      rw [ih (fun e he => h e (List.mem_cons_of_mem _ he)), List.length_cons, List.replicate_succ,
        List.append_assoc, List.singleton_append]

theorem recvAsMany_ends (len : ℕ) {event : RecvEvent} (h : event.retried = false) (buf : Buffer n) :
    ∃ r, ∀ more reqs, (recvAsMany b len (event :: more) buf reqs).1 = r ∧
      (recvAsMany b len (event :: more) buf reqs).2.requests = reqs ++ [⟨buf.offset, len⟩] := by
  cases event with
  | arrive bytes =>
    rcases hstore : buf.store 0 (bytes.take len) with stop | stored
    · exact ⟨.error stop, fun more reqs => by simp only [recvAsMany, hstore, and_self]⟩
    · exact ⟨.ok { noOfBytes := (bytes.take len).length, socketClosed := (bytes.take len).length == 0 },
        fun more reqs => by simp only [recvAsMany, hstore, and_self]⟩
  | fail errorCode =>
    by_cases he : errorCode = .eagain
    · subst he
      refine ⟨.ok {}, fun more reqs => ?_⟩
      simp [recvAsMany, handleError_eagain]
    · rcases handleError_other b h he {} with ⟨stop, hcall, -⟩ | ⟨v', hcall⟩
      · exact ⟨.error stop, fun more reqs => by simp only [recvAsMany, hcall, and_self]⟩
      · exact ⟨.ok { v'.result with noOfBytes := 0 }, fun more reqs => by
          simp only [recvAsMany, hcall, and_self]⟩

/-- The receive has returned, or an assert has failed, by the first `calls` outcomes; it called `recv`
for each. -/
def ReturnsBy (b : Build) (inb : Inbound n) (outcomes : ℕ → RecvEvent) (calls : ℕ)
    (r : Except Stop Result) : Prop :=
  EndsOn (returned (recvAsManyAsPossibleAsync b) inb) (firsts outcomes calls)
    (r, inb.requests.length + calls)

/-- The receive returns within five calls, and with a failure if all of them were retried. -/
def GivesUp (b : Build) (inb : Inbound n) (outcomes : ℕ → RecvEvent) : Prop :=
  ∃ calls ≤ 5, ∃ r, ReturnsBy b inb outcomes calls r ∧
    ((∀ i < calls, (outcomes i).retried = true) → ∀ result, r = .ok result → result.isFailure = true)

theorem returned_retried {outcomes : ℕ → RecvEvent} {calls : ℕ}
    (h : ∀ i < calls, (outcomes i).retried = true) (inb : Inbound n) (more : List RecvEvent) :
    ∃ reqs, reqs.length = inb.requests.length + calls ∧
      returned (recvAsManyAsPossibleAsync b) inb (firsts outcomes calls ++ more) =
        ((recvAsMany b inb.buffer.size more inb.buffer reqs).1,
          (recvAsMany b inb.buffer.size more inb.buffer reqs).2.requests.length) := by
  have hall : ∀ event ∈ firsts outcomes calls, event.retried = true := by
    intro event he
    obtain ⟨i, hi, rfl⟩ := mem_firsts.mp he
    exact h i hi
  refine ⟨inb.requests ++ List.replicate calls ⟨inb.buffer.offset, inb.buffer.size⟩, ?_, ?_⟩
  · rw [List.length_append, List.length_replicate]
  · simp only [returned, recvAsManyAsPossibleAsync, recvAsMany_retried _ hall, length_firsts]

/-- The first outcome that is not retried ends the receive. -/
theorem returnsBy_first (inb : Inbound n) {outcomes : ℕ → RecvEvent} {i : ℕ}
    (hi : (outcomes i).retried = false) (hbefore : ∀ j < i, (outcomes j).retried = true) :
    ∃ r, ReturnsBy b inb outcomes (i + 1) r := by
  obtain ⟨r, hr⟩ := recvAsMany_ends (b := b) inb.buffer.size hi inb.buffer
  refine ⟨r, fun more => ?_⟩
  obtain ⟨reqs, hreqs, hreturned⟩ := returned_retried (b := b) hbefore inb (outcomes i :: more)
  obtain ⟨hresult, hrequests⟩ := hr more reqs
  rw [firsts_succ, List.append_assoc, List.singleton_append, hreturned, hresult, hrequests,
    List.length_append, hreqs]
  rfl

/-- As long as every outcome is retried, the receive waits for the next. -/
theorem not_returnsBy {inb : Inbound n} {outcomes : ℕ → RecvEvent} {calls : ℕ}
    (h : ∀ i < calls, (outcomes i).retried = true) (r : Except Stop Result) :
    ¬ReturnsBy b inb outcomes calls r := by
  intro hr
  obtain ⟨reqs, hreqs, hreturned⟩ := returned_retried (b := b) h inb []
  have hcalls := congrArg Prod.snd (hreturned.symm.trans (hr []))
  simp only [recvAsMany, List.length_append, List.length_singleton] at hcalls
  omega

theorem ReturnsBy.exists_last {inb : Inbound n} {outcomes : ℕ → RecvEvent} {calls : ℕ}
    {r : Except Stop Result} (h : ReturnsBy b inb outcomes calls r) :
    ∃ i < calls, (outcomes i).retried = false := by
  by_contra hall
  refine not_returnsBy (fun i hi => ?_) r h
  by_contra hi'
  exact hall ⟨i, hi, Bool.eq_false_of_not_eq_true hi'⟩

theorem exists_returnsBy (b : Build) (inb : Inbound n) {outcomes : ℕ → RecvEvent} {i : ℕ}
    (hi : (outcomes i).retried = false) :
    ∃ j ≤ i, (outcomes j).retried = false ∧ ∃ r, ReturnsBy b inb outcomes (j + 1) r := by
  have hex : ∃ i, (outcomes i).retried = false := ⟨i, hi⟩
  refine ⟨Nat.find hex, Nat.find_min' hex hi, Nat.find_spec hex, ?_⟩
  refine returnsBy_first inb (Nat.find_spec hex) fun j hj => ?_
  exact Bool.eq_true_of_not_eq_false (Nat.find_min hex hj)

/-- **The opportunistic receive returns** if and only if there is an outcome that it does not retry,
and gives up as its siblings do if and only if one of the first five is. -/
theorem recvAsManyAsPossibleAsync_gives_up (b : Build) (inb : Inbound n) (outcomes : ℕ → RecvEvent) :
    ((∃ calls r, ReturnsBy b inb outcomes calls r) ↔ ∃ i, (outcomes i).retried = false) ∧
      (GivesUp b inb outcomes ↔ ∃ i < 5, (outcomes i).retried = false) := by
  refine ⟨⟨?_, ?_⟩, ?_, ?_⟩
  · rintro ⟨calls, r, hr⟩
    obtain ⟨i, -, hi⟩ := hr.exists_last
    exact ⟨i, hi⟩
  · rintro ⟨i, hi⟩
    obtain ⟨j, -, -, r, hr⟩ := exists_returnsBy b inb hi
    exact ⟨j + 1, r, hr⟩
  · rintro ⟨calls, hcalls, r, hr, -⟩
    obtain ⟨i, hlt, hi⟩ := hr.exists_last
    exact ⟨i, hlt.trans_le hcalls, hi⟩
  · rintro ⟨i, hlt, hi⟩
    obtain ⟨j, hj, hlast, r, hr⟩ := exists_returnsBy b inb hi
    refine ⟨j + 1, by omega, r, hr, fun hall => ?_⟩
    have hretried := hall j (Nat.lt_succ_self j)
    rw [hlast] at hretried
    cases hretried

end Opportunistic

end Recv

/-- A `recv` that is interrupted for ever. -/
theorem recvAsManyAsPossibleAsync_endless :
    ¬∀ (n : ℕ) (b : Build) (inb : Inbound n) (outcomes : ℕ → RecvEvent), GivesUp b inb outcomes := by
  intro h
  obtain ⟨calls, -, r, hr, -⟩ := h 106 ⟨true, .little⟩
    ⟨.filled 0 (by decide) (by decide), [], []⟩ fun _ => .fail .eintr
  exact not_returnsBy (fun _ _ => rfl) r hr

end PollServer
