import PollServer.Model.Tcp

/-! A receive without its buffer. `offer` and `offerOnce` say which bytes the kernel
hands to one call of `recvFixedBytes` (with `MSG_DONTWAIT`) and of
`recvAsManyAsPossibleAsync`, and how the call ends; `recvFixedBytes_eq` and
`recvAsManyAsPossibleAsync_eq` say that the calls store exactly these bytes and return
exactly this ending. -/

namespace PollServer

open Lib

/-- `quiet` is the end on a `0` or on an errno that `handleError` knows nothing about:
the result is then a failure only if nothing was received. -/
inductive Ending where
  | complete
  | quiet
  | closed
  | aborted
  deriving DecidableEq

structure Offer where
  bytes : List Byte
  ending : Ending
  rest : List RecvEvent
  asks : List ℕ
  deriving DecidableEq

namespace Offer

/-- The result of a call that had `total` bytes before these. -/
def result (total : ℕ) (o : Offer) : Except Stop Result :=
  if o.ending = .aborted then .error .assertion
  else .ok { noOfBytes := total + o.bytes.length, socketClosed := o.ending = .closed }

/-- The caller goes on to read the buffer. -/
def accepted (o : Offer) : Prop := o.bytes ≠ [] ∧ (o.ending = .complete ∨ o.ending = .quiet)

def refused (o : Offer) : Prop := o.ending ≠ .aborted ∧ (o.bytes = [] ∨ o.ending = .closed)

instance (o : Offer) : Decidable o.accepted := inferInstanceAs (Decidable (_ ∧ _))
instance (o : Offer) : Decidable o.refused := inferInstanceAs (Decidable (_ ∧ _))

/-- The offer with a first request for `need` bytes, answered by `got`. -/
def cons (need : ℕ) (got : List Byte) (o : Offer) : Offer :=
  { o with bytes := got ++ o.bytes, asks := need :: o.asks }

@[simp] theorem cons_bytes (need : ℕ) (got : List Byte) (o : Offer) :
    (o.cons need got).bytes = got ++ o.bytes := rfl
@[simp] theorem cons_ending (need : ℕ) (got : List Byte) (o : Offer) :
    (o.cons need got).ending = o.ending := rfl
@[simp] theorem cons_rest (need : ℕ) (got : List Byte) (o : Offer) :
    (o.cons need got).rest = o.rest := rfl

theorem result_cons (need total : ℕ) (got : List Byte) (o : Offer) :
    (o.cons need got).result total = o.result (total + got.length) := by
  rw [result, result, cons_bytes, List.length_append, Nat.add_assoc]
  rfl

theorem accepted_or (o : Offer) : o.ending = .aborted ∨ o.refused ∨ o.accepted := by
  unfold accepted refused
  cases o.ending <;> by_cases h : o.bytes = [] <;> simp [h]

theorem not_refused {o : Offer} (h : o.accepted) : ¬o.refused := by
  rintro ⟨-, hb | hc⟩
  · exact h.1 hb
  · rcases h.2 with he | he <;> simp [he] at hc

theorem not_aborted {o : Offer} (h : o.accepted) : o.ending ≠ .aborted := by
  rcases h.2 with he | he <;> simp [he]

theorem result_aborted {o : Offer} (h : o.ending = .aborted) : o.result 0 = .error .assertion := by
  simp [result, h]

theorem result_refused {o : Offer} (h : o.refused) :
    ∃ r, o.result 0 = .ok r ∧ r.isFailure = true := by
  obtain ⟨ha, hr⟩ := h
  refine ⟨_, if_neg ha, ?_⟩
  rcases hr with hr | hr <;> simp [Result.isFailure, hr]

theorem result_accepted {o : Offer} (h : o.accepted) :
    ∃ r, o.result 0 = .ok r ∧ r.isFailure = false ∧ r.noOfBytes = o.bytes.length := by
  obtain ⟨hb, he⟩ := h
  have hc : o.ending ≠ .closed := by rcases he with he | he <;> simp [he]
  refine ⟨_, if_neg (not_aborted ⟨hb, he⟩), ?_, by simp⟩
  simp [Result.isFailure, hb, hc]

theorem result_pollFailure {o : Offer} {total : ℕ} {r : Result} (h : o.result total = .ok r) :
    r.pollFailure = false := by
  unfold result at h
  split_ifs at h
  cases h
  rfl

end Offer

/-- Whether `recvFixedBytes` goes on after an errno, or how it ends. -/
def retry (b : Build) (errorCode : Errno) (v : Attempt) : Ending ⊕ Attempt :=
  match handleError b errorCode v with
  | .error _ => .inl .aborted
  | .ok (false, v) => .inl (if v.result.socketClosed then .closed else .quiet)
  | .ok (true, v) => if 5 ≤ v.majorFailCount then .inl .closed else .inr v

/-- What the kernel hands to a fixed-size receive that still needs `need` bytes. -/
def offer (b : Build) (need : ℕ) : List RecvEvent → Attempt → Offer
  | [], _ => if need = 0 then ⟨[], .complete, [], []⟩ else ⟨[], .quiet, [], [need]⟩
  | event :: rest, v =>
    if need = 0 then ⟨[], .complete, event :: rest, []⟩
    else
      match event with
      | .arrive bytes =>
        if bytes = [] then ⟨[], .quiet, rest, [need]⟩
        else if need < bytes.length then
          ⟨bytes.take need, .complete, .arrive (bytes.drop need) :: rest, [need]⟩
        else (offer b (need - bytes.length) rest v).cons need bytes
      | .fail errorCode =>
        match retry b errorCode v with
        | .inl ending => ⟨[], ending, rest, [need]⟩
        | .inr v => (offer b need rest v).cons need []

/-- What the kernel hands to one receive of at most `len` bytes that is retried only
after an error it can recover from. -/
def offerOnce (b : Build) (len : ℕ) : List RecvEvent → Offer
  | [] => ⟨[], .closed, [], [len]⟩
  | .arrive bytes :: rest =>
    let got := bytes.take len
    ⟨got, if got = [] then .closed else .complete, leftover bytes len rest, [len]⟩
  | .fail errorCode :: rest =>
    match handleError b errorCode {} with
    | .error _ => ⟨[], .aborted, rest, [len]⟩
    | .ok (false, v) => ⟨[], if v.result.socketClosed then .closed else .quiet, rest, [len]⟩
    | .ok (true, v) =>
      if v.asyncFailCounter ≠ 0 then ⟨[], .quiet, rest, [len]⟩
      else (offerOnce b len rest).cons len []

/-- Where the requests of a receive of `size` bytes at `pos` were told to store. -/
def requestsAt (pos size : ℕ) (asks : List ℕ) : List Request :=
  asks.map fun need => ⟨pos + (size - need), need⟩

/-! ### The length of an offer -/

theorem offer_length_le (b : Build) (need : ℕ) (events : List RecvEvent) (v : Attempt) :
    (offer b need events v).bytes.length ≤ need := by
  induction events generalizing need v with
  | nil => unfold offer; split_ifs <;> simp
  | cons event rest ih =>
    unfold offer
    split_ifs with h0
    · simp
    · cases event with
      | arrive bytes =>
        dsimp only
        split_ifs with hb hn
        · simp
        · simp
        · have := ih (need - bytes.length) v
          simp only [Offer.cons_bytes, List.length_append]
          omega
      | fail errorCode =>
        dsimp only
        split
        · simp
        · simpa using ih need _

theorem retry_ne_complete {b : Build} {errorCode : Errno} {v : Attempt} {ending : Ending}
    (h : retry b errorCode v = .inl ending) : ending ≠ .complete := by
  unfold retry at h
  split at h
  · cases h; simp
  · cases h; split_ifs <;> simp
  · split_ifs at h
    cases h; simp

theorem offer_complete (b : Build) (need : ℕ) (events : List RecvEvent) (v : Attempt)
    (h : (offer b need events v).ending = .complete) :
    (offer b need events v).bytes.length = need := by
  induction events generalizing need v with
  | nil =>
    unfold offer at h ⊢
    split_ifs at h ⊢ with h0
    simp [h0]
  | cons event rest ih =>
    unfold offer at h ⊢
    split_ifs at h ⊢ with h0
    · simp [h0]
    · cases event with
      | arrive bytes =>
        dsimp only at h ⊢
        split_ifs at h ⊢ with hb hn
        · simp only [List.length_take]; omega
        · have := ih _ v h
          simp only [Offer.cons_bytes, List.length_append, this]
          omega
      | fail errorCode =>
        dsimp only at h ⊢
        split at h
        · rename_i hr
          exact absurd h (retry_ne_complete hr)
        · rename_i v' hr
          simpa [hr] using ih need v' h

/-- A receive that got all it asked for has ended by that. -/
theorem offer_whole {b : Build} {need : ℕ} {events : List RecvEvent} {v : Attempt}
    (h : (offer b need events v).bytes.length = need) : (offer b need events v).ending = .complete := by
  induction events generalizing need v with
  | nil =>
    unfold offer at h ⊢
    split_ifs at h ⊢ with h0
    · rfl
    · exact absurd h.symm h0
  | cons event rest ih =>
    unfold offer at h ⊢
    split_ifs at h ⊢ with h0
    · rfl
    · cases event with
      | arrive bytes =>
        dsimp only at h ⊢
        split_ifs at h ⊢ with hb hn
        · exact absurd h.symm h0
        · rfl
        · simp only [Offer.cons_bytes, List.length_append] at h
          exact ih (by omega)
      | fail errorCode =>
        dsimp only at h ⊢
        split at h
        · exact absurd h.symm h0
        · exact ih (by simpa using h)

theorem handleError_off {b : Build} (hb : b.asserts = false) (errorCode : Errno) (v : Attempt) :
    ∃ r, handleError b errorCode v = .ok r := by
  cases errorCode <;> simp [handleError, assert_off hb, bind, Except.bind, pure, Except.pure]
  split_ifs <;> simp

theorem offer_off {b : Build} (hb : b.asserts = false) (need : ℕ) (events : List RecvEvent)
    (v : Attempt) : (offer b need events v).ending ≠ .aborted := by
  induction events generalizing need v with
  | nil => unfold offer; split_ifs <;> simp
  | cons event rest ih =>
    unfold offer
    split_ifs with h0
    · simp
    · cases event with
      | arrive bytes =>
        dsimp only
        split_ifs
        · simp
        · simp
        · exact ih _ v
      | fail errorCode =>
        dsimp only
        obtain ⟨⟨goesOn, v'⟩, he⟩ := handleError_off hb errorCode v
        cases goesOn
        · simp only [retry, he]
          split_ifs <;> simp
        · simp only [retry, he]
          split_ifs
          · simp
          · exact ih need v'

theorem offer_asks_le (b : Build) (need : ℕ) (events : List RecvEvent) (v : Attempt) :
    ∀ k ∈ (offer b need events v).asks, k ≤ need := by
  induction events generalizing need v with
  | nil => unfold offer; split_ifs <;> simp
  | cons event rest ih =>
    unfold offer
    split_ifs with h0
    · simp
    · cases event with
      | arrive bytes =>
        dsimp only
        split_ifs
        · simp
        · simp
        · intro k hk
          rcases List.mem_cons.mp hk with rfl | hk
          · exact le_rfl
          · have := ih _ v k hk
            omega
      | fail errorCode =>
        dsimp only
        split
        · simp
        · intro k hk
          rcases List.mem_cons.mp hk with rfl | hk
          · exact le_rfl
          · exact ih need _ k hk

theorem offerOnce_length_le (b : Build) (len : ℕ) (events : List RecvEvent) :
    (offerOnce b len events).bytes.length ≤ len := by
  induction events with
  | nil => simp [offerOnce]
  | cons event rest ih =>
    cases event with
    | arrive bytes => simp [offerOnce]
    | fail errorCode =>
      simp only [offerOnce]
      split
      · simp
      · simp
      · split_ifs
        · simp
        · simpa using ih

theorem offerOnce_asks (b : Build) (len : ℕ) (events : List RecvEvent) :
    ∀ k ∈ (offerOnce b len events).asks, k = len := by
  induction events with
  | nil => simp [offerOnce]
  | cons event rest ih =>
    cases event with
    | arrive bytes => simp [offerOnce]
    | fail errorCode =>
      simp only [offerOnce]
      split
      · simp
      · simp
      · split_ifs
        · simp
        · intro k hk
          rcases List.mem_cons.mp hk with rfl | hk
          · rfl
          · exact ih k hk

/-! ### The calls are their offers -/

theorem handleError_cases (b : Build) (errorCode : Errno) (v : Attempt) :
    handleError b errorCode v = .error .assertion ∨
      (∃ v', handleError b errorCode v = .ok (true, v') ∧ v'.result = v.result) ∨
      ∃ closed, handleError b errorCode v =
        .ok (false, { v with result := { v.result with socketClosed := closed } }) := by
  cases errorCode <;> cases hb : b.asserts <;>
    simp [handleError, assert, hb, bind, Except.bind, pure, Except.pure]
  all_goals first
    | (split_ifs <;> simp)
    | (rcases v with ⟨⟨_, c, _, _, _⟩, _, _⟩; cases c <;> simp)

section Calls

variable {n : ℕ} (b : Build)

theorem recvLoop_eq {size : ℕ} (hs : size < 2 ^ 64) (events : List RecvEvent) (buf : Buffer n)
    (reqs : List Request) (total : ℕ) (v : Attempt) (ht : total ≤ size) (hv : v.result = {})
    (hn : buf.offset + total + (offer b (size - total) events v).bytes.length ≤ n) :
    recvLoop b true size events buf reqs total v =
      ((offer b (size - total) events v).result total,
        ⟨buf.stored total (offer b (size - total) events v).bytes,
          (offer b (size - total) events v).rest,
          reqs ++ requestsAt buf.offset size (offer b (size - total) events v).asks⟩) := by
  induction events generalizing buf reqs total v with
  | nil =>
    by_cases h : total < size
    · have h0 : size - total ≠ 0 := by omega
      simp only [recvLoop, offer, if_neg h0, if_pos h, Offer.result, requestsAt, hv]
      simp
      omega
    · have h0 : size - total = 0 := by omega
      simp [recvLoop, offer, h0, h, Offer.result, requestsAt, hv]
  | cons event rest ih =>
    by_cases h : size ≤ total
    · have h0 : size - total = 0 := by omega
      simp [recvLoop, offer, h, h0, Offer.result, requestsAt, hv]
    have h0 : size - total ≠ 0 := by omega
    have hpos : size - (size - total) = total := by omega
    cases event with
    | arrive bytes =>
      simp only [offer, if_neg h0] at hn ⊢
      simp only [recvLoop, if_neg h]
      by_cases hb : bytes = []
      · simp [hb, Offer.result, requestsAt, hv, hpos]
      by_cases hlt : size - total < bytes.length
      · simp only [if_neg hb, if_pos hlt] at hn ⊢
        have hl : (bytes.take (size - total)).length = size - total := by simp; omega
        have hne : bytes.take (size - total) ≠ [] := by
          rw [← List.length_pos_iff, hl]; omega
        rw [if_neg hne, Buffer.store_of_le _ hn]
        simp only [hl, Bool.true_eq_false, false_or, if_pos hlt, leftover, if_neg (not_le.mpr hlt),
          addSize_of_lt (show total + (size - total) < 2 ^ 64 by omega), Offer.result, requestsAt, hv,
          List.map_cons, List.map_nil, hpos]
        simp
      · simp only [if_neg hb, if_neg hlt, Offer.cons_bytes, List.length_append] at hn ⊢
        have htake : bytes.take (size - total) = bytes := List.take_of_length_le (by omega)
        have hsub : size - total - bytes.length = size - (total + bytes.length) := by omega
        rw [htake, if_neg hb, Buffer.store_of_le _ (by omega)]
        simp only [Bool.true_eq_false, false_or, lt_self_iff_false, if_false,
          addSize_of_lt (show total + bytes.length < 2 ^ 64 by omega)]
        rw [hsub] at hn ⊢
        rw [ih _ _ _ _ (by omega) hv (by rw [Buffer.stored_offset]; omega),
          Buffer.stored_stored _ (by rw [List.length_append]; omega), Offer.result_cons]
        simp [Offer.cons, requestsAt, hpos]
    | fail errorCode =>
      simp only [offer, if_neg h0, retry] at hn ⊢
      simp only [recvLoop, if_neg h, Bool.true_eq_false, if_false]
      rcases handleError_cases b errorCode v with he | ⟨v', he, hv'⟩ | ⟨closed, he⟩
      · simp [he, Offer.result, requestsAt, hpos]
      · simp only [he] at hn ⊢
        by_cases hm : 5 ≤ v'.majorFailCount
        · simp [hm, hv', hv, Offer.result, requestsAt, hpos]
        · simp only [if_neg hm, Offer.cons_bytes, List.nil_append] at hn ⊢
          rw [ih _ _ _ _ ht (hv'.trans hv) hn, Offer.result_cons]
          simp [Offer.cons, requestsAt, hpos]
      · simp only [he, hv]
        cases closed <;> simp [Offer.result, requestsAt, hpos]

/-- More bytes than the array has room for run over its end. -/
theorem recvLoop_overrun {size : ℕ} (hs : size < 2 ^ 64) (events : List RecvEvent) (buf : Buffer n)
    (reqs : List Request) (total : ℕ) (v : Attempt) (ht : total ≤ size)
    (hb : buf.offset + total ≤ n)
    (hn : n < buf.offset + total + (offer b (size - total) events v).bytes.length) :
    (recvLoop b true size events buf reqs total v).1 = .error .outOfBounds := by
  induction events generalizing buf reqs total v with
  | nil =>
    unfold offer at hn
    split_ifs at hn <;> simp at hn <;> omega
  | cons event rest ih =>
    by_cases h : size ≤ total
    · have h0 : size - total = 0 := by omega
      simp [offer, h0] at hn
      omega
    have h0 : size - total ≠ 0 := by omega
    cases event with
    | arrive bytes =>
      simp only [offer, if_neg h0] at hn
      simp only [recvLoop, if_neg h]
      by_cases he : bytes = []
      · simp [he] at hn
        omega
      by_cases hlt : size - total < bytes.length
      · simp only [if_neg he, if_pos hlt] at hn
        have hne : bytes.take (size - total) ≠ [] := by
          rw [← List.length_pos_iff, List.length_take]; omega
        rw [if_neg hne, Buffer.store_of_lt _ hn]
      · simp only [if_neg he, if_neg hlt, Offer.cons_bytes, List.length_append] at hn
        rw [List.take_of_length_le (by omega), if_neg he]
        by_cases hf : buf.offset + total + bytes.length ≤ n
        · rw [Buffer.store_of_le _ hf]
          simp only [Bool.true_eq_false, false_or, lt_self_iff_false, if_false,
            addSize_of_lt (show total + bytes.length < 2 ^ 64 by omega)]
          rw [show size - total - bytes.length = size - (total + bytes.length) by omega] at hn
          exact ih _ _ _ _ (by omega) (by rw [Buffer.stored_offset]; omega)
            (by rw [Buffer.stored_offset]; omega)
        · rw [Buffer.store_of_lt _ (by omega)]
    | fail errorCode =>
      simp only [offer, if_neg h0, retry] at hn
      simp only [recvLoop, if_neg h, Bool.true_eq_false, if_false]
      rcases handleError_cases b errorCode v with he | ⟨v', he, -⟩ | ⟨closed, he⟩
      · simp [he] at hn
        omega
      · simp only [he] at hn ⊢
        by_cases hm : 5 ≤ v'.majorFailCount
        · simp [hm] at hn
          omega
        · simp only [if_neg hm, Offer.cons_bytes, List.nil_append] at hn ⊢
          exact ih _ _ _ _ ht hb hn
      · simp [he] at hn
        omega

/-- Every request of a receive of `size` bytes ends where the receive ends. -/
theorem recvLoop_requests (dontWait : Bool) (size : ℕ) (events : List RecvEvent) (buf : Buffer n)
    (reqs : List Request) (total : ℕ) (v : Attempt) (ht : total ≤ size) (hs : size < 2 ^ 64) :
    ∃ more : List Request,
      (recvLoop b dontWait size events buf reqs total v).2.requests = reqs ++ more ∧
      (∀ q ∈ more, q.offset + q.len = buf.offset + size) ∧ (total < size → more ≠ []) := by
  induction events generalizing buf reqs total v with
  | nil =>
    by_cases h : total < size
    · exact ⟨[⟨buf.offset + total, size - total⟩], by simp [recvLoop, h], by simp; omega, by simp⟩
    · exact ⟨[], by simp [recvLoop, h], by simp, fun h' => absurd h' h⟩
  | cons event rest ih =>
    by_cases h : size ≤ total
    · exact ⟨[], by simp [recvLoop, h], by simp, fun h' => absurd h' (by omega)⟩
    set q : Request := ⟨buf.offset + total, size - total⟩ with hq
    have hone : ∃ more : List Request, reqs ++ [q] = reqs ++ more ∧
        (∀ q ∈ more, q.offset + q.len = buf.offset + size) ∧ (total < size → more ≠ []) :=
      ⟨[q], rfl, by simp [hq]; omega, by simp⟩
    -- the requests of the rest of the loop come behind this one
    have hmore : ∀ (buf' : Buffer n) total' v', buf'.offset = buf.offset → total' ≤ size →
        ∃ more : List Request,
          (recvLoop b dontWait size rest buf' (reqs ++ [q]) total' v').2.requests = reqs ++ more ∧
          (∀ q ∈ more, q.offset + q.len = buf.offset + size) ∧ (total < size → more ≠ []) := by
      intro buf' total' v' ho ht'
      obtain ⟨more, hr, hall, -⟩ := ih buf' (reqs ++ [q]) total' v' ht'
      refine ⟨q :: more, by rw [hr]; simp, ?_, by simp⟩
      intro q' hq'
      rcases List.mem_cons.mp hq' with rfl | hq'
      · simp only [hq]; omega
      · rw [hall q' hq', ho]
    cases event with
    | arrive bytes =>
      simp only [recvLoop, if_neg h, ← hq]
      by_cases hg : bytes.take (size - total) = []
      · rw [if_pos hg]; exact hone
      rw [if_neg hg]
      by_cases hf : buf.offset + total + (bytes.take (size - total)).length ≤ n
      · rw [Buffer.store_of_le _ hf]
        dsimp only
        split_ifs
        · exact hone
        · have hl : (bytes.take (size - total)).length ≤ size - total := by simp
          rw [addSize_of_lt (by omega)]
          exact hmore _ _ _ (by simp) (by omega)
      · rw [Buffer.store_of_lt _ (by omega)]; exact hone
    | fail errorCode =>
      simp only [recvLoop, if_neg h, ← hq]
      by_cases hd : dontWait = false
      · rw [if_pos hd]; exact hone
      rw [if_neg hd]
      rcases handleError_cases b errorCode v with he | ⟨v', he, -⟩ | ⟨closed, he⟩
      · rw [he]; exact hone
      · rw [he]
        dsimp only
        split_ifs
        · exact hone
        · exact hmore _ _ _ rfl ht
      · rw [he]; exact hone

theorem recvFixedBytes_eq {size : ℕ} (hs : size < 2 ^ 64) (inb : Inbound n)
    (hn : inb.buffer.offset + (offer b size inb.events {}).bytes.length ≤ n) :
    recvFixedBytes b size true inb =
      ((offer b size inb.events {}).result 0,
        ⟨inb.buffer.stored 0 (offer b size inb.events {}).bytes, (offer b size inb.events {}).rest,
          inb.requests ++ requestsAt inb.buffer.offset size (offer b size inb.events {}).asks⟩) := by
  have h := recvLoop_eq b hs inb.events inb.buffer inb.requests 0 {} (Nat.zero_le _) rfl
  rw [Nat.sub_zero, Nat.add_zero] at h
  exact h hn

theorem recvFixedBytes_overrun {size : ℕ} (hs : size < 2 ^ 64) (inb : Inbound n)
    (hb : inb.buffer.offset ≤ n)
    (hn : n < inb.buffer.offset + (offer b size inb.events {}).bytes.length) :
    (recvFixedBytes b size true inb).1 = .error .outOfBounds := by
  have h := recvLoop_overrun b hs inb.events inb.buffer inb.requests 0 {} (Nat.zero_le _)
  rw [Nat.sub_zero, Nat.add_zero] at h
  exact h hb hn

theorem recvAsManyAsPossibleAsync_eq (inb : Inbound n) (hn : inb.buffer.offset ≤ n) :
    recvAsManyAsPossibleAsync b inb =
      ((offerOnce b (n - inb.buffer.offset) inb.events).result 0,
        ⟨inb.buffer.stored 0 (offerOnce b (n - inb.buffer.offset) inb.events).bytes,
          (offerOnce b (n - inb.buffer.offset) inb.events).rest,
          inb.requests ++ (offerOnce b (n - inb.buffer.offset) inb.events).asks.map
            fun need => ⟨inb.buffer.offset, need⟩⟩) := by
  obtain ⟨buf, events, reqs⟩ := inb
  dsimp only at hn ⊢
  rw [recvAsManyAsPossibleAsync, Buffer.size_of_le _ hn]
  dsimp only
  induction events generalizing reqs with
  | nil => simp [recvAsMany, offerOnce, Offer.result]
  | cons event rest ih =>
    cases event with
    | arrive bytes =>
      have hl : (bytes.take (n - buf.offset)).length ≤ n - buf.offset := by simp
      simp only [recvAsMany, offerOnce]
      rw [Buffer.store_of_le _ (by omega)]
      by_cases hg : bytes.take (n - buf.offset) = []
      · simp [Offer.result, hg]
      · have h0 : (bytes.take (n - buf.offset)).length ≠ 0 := by simpa using hg
        simp only [if_neg hg, Offer.result, beq_eq_false_iff_ne.mpr h0, Nat.zero_add]
        simp
    | fail errorCode =>
      simp only [recvAsMany, offerOnce]
      rcases handleError_cases b errorCode {} with he | ⟨v', he, hv'⟩ | ⟨closed, he⟩
      · simp [he, Offer.result]
      · simp only [he]
        by_cases ha : v'.asyncFailCounter ≠ 0
        · simp [ha, hv', Offer.result]
        · rw [if_neg ha, if_neg ha, ih, Offer.result_cons]
          simp [Offer.cons]
      · simp only [he]
        cases closed <;> simp [Offer.result]

end Calls

end PollServer
