import PollServer.Limit.Deadline
import PollServer.Read.Overrun
import PollServer.Read.Sessions

/-! How often one read counts. A single-shot read counts once at most; a multi-shot read
that returns counts once for every length field in the bytes that it was handed. -/

namespace PollServer

open Lib StopM ReadM NetworkPacket

namespace Session

/-- `m` counts, each at the time that the clock gave for it. -/
def Counted (ses ses' : Session) : Prop :=
  ses'.clock = ses.clock ∧ ∃ m, ses'.ticks = ses.ticks + m ∧
    ses'.clientInfo.deadline =
      ses.clientInfo.deadline.incrementAll ((List.range' ses.ticks m).map ses.clock)

/-- Nothing is counted. -/
def Uncounted (ses ses' : Session) : Prop := ses'.ticks = ses.ticks

theorem Counted.of_eq {ses ses' : Session} (hc : ses'.clock = ses.clock)
    (ht : ses'.ticks = ses.ticks) (hd : ses'.clientInfo.deadline = ses.clientInfo.deadline) :
    Counted ses ses' := ⟨hc, 0, ht, hd⟩

theorem Counted.trans {ses ses' ses'' : Session} (h : Counted ses ses') (h' : Counted ses' ses'') :
    Counted ses ses'' := by
  obtain ⟨hc, m, ht, hd⟩ := h
  obtain ⟨hc', m', ht', hd'⟩ := h'
  refine ⟨hc'.trans hc, m + m', by rw [ht', ht, Nat.add_assoc], ?_⟩
  rw [hd', hd, ht, hc, ← List.range'_append_1, List.map_append, Deadline.incrementAll_append]

theorem dispatch_clock (socket : ℤ) (packet : NetworkPacket) (ses : Session) :
    (ses.dispatch socket packet).clock = ses.clock ∧
      (ses.dispatch socket packet).ticks = ses.ticks := by
  simp only [dispatch, react]
  split_ifs <;> exact ⟨rfl, rfl⟩

theorem counted_stepwise (socket : ℤ) : Stepwise socket Counted where
  refl _ := .of_eq rfl rfl rfl
  trans _ _ _ := Counted.trans
  count _ := ⟨rfl, 1, rfl, rfl⟩
  decoded _ _ := .of_eq rfl rfl rfl
  close _ := .of_eq rfl rfl rfl
  dispatch p ses _ :=
    .of_eq (ses.dispatch_clock socket p).1 (ses.dispatch_clock socket p).2
      (deadline_dispatch socket p ses)

theorem uncounted_quiet (socket : ℤ) : Quiet socket Uncounted where
  refl _ := rfl
  trans _ _ _ h h' := h'.trans h
  decoded _ _ := rfl
  close _ := rfl
  dispatch p ses _ := (ses.dispatch_clock socket p).2

end Session

variable {n : ℕ} (b : Build) (socket : ℤ)

/-- **What a read leaves in the deadline** are the times of its counts. -/
theorem readForSingleSocket_counted (shot : Shot) :
    Steps (OnSessions Session.Counted)
      (readForSingleSocket b shot socket : ReadM n ClientPollResult) :=
  (Session.counted_stepwise socket).readForSingleSocket b shot

section Dispatches

/-- Every packet dispatched has a count of its own before it. -/
def Session.Paid (ses : Session) : Prop :=
  (ses.log.map Prod.fst).Sublist (List.range' 1 ses.ticks)

/-- And there is a count for one more. -/
def Session.Funded (ses : Session) : Prop :=
  ∃ m, ses.ticks = m + 1 ∧ (ses.log.map Prod.fst).Sublist (List.range' 1 m)

/-- Neither a count nor a dispatch. -/
def Session.Still (ses ses' : Session) : Prop := ses'.log = ses.log ∧ ses'.ticks = ses.ticks

theorem Session.still_idle : Idle Still where
  refl _ := ⟨rfl, rfl⟩
  trans _ _ _ h h' := ⟨h'.1.trans h.1, h'.2.trans h.2⟩
  decoded _ _ := ⟨rfl, rfl⟩
  close _ := ⟨rfl, rfl⟩

theorem Session.Funded.paid {ses : Session} (h : ses.Funded) : ses.Paid := by
  obtain ⟨m, hm, hlog⟩ := h
  rw [Paid, hm, List.range'_concat]
  exact hlog.trans (List.sublist_append_left _ _)

theorem Session.Paid.count {ses : Session} (h : ses.Paid) : ses.count.Funded := ⟨ses.ticks, rfl, h⟩

theorem Session.Funded.dispatch {ses : Session} (h : ses.Funded) (packet : NetworkPacket) :
    (ses.dispatch socket packet).Paid := by
  obtain ⟨m, hm, hlog⟩ := h
  rw [Paid, (ses.dispatch_clock socket packet).2, hm, List.range'_concat, Session.dispatch,
    List.map_append, hm, Nat.one_mul, Nat.add_comm m 1]
  exact hlog.append (List.Sublist.refl _)

/-- What leads from `P` to `Q`. -/
def Leads (P Q : Session → Prop) (s s' : ReadState n) : Prop := P s.session → Q s'.session

variable {α β : Type} {P Q : Session → Prop}

theorem Session.Still.paid {ses ses' : Session} (h : Still ses ses') (hp : ses.Paid) : ses'.Paid := by
  rwa [Paid, h.1, h.2]

theorem Session.Still.funded {ses ses' : Session} (h : Still ses ses') (hp : ses.Funded) :
    ses'.Funded := by
  rwa [Funded, h.1, h.2]

theorem still_paid {m : ReadM n α} {f : α → ReadM n β} (hm : Steps (OnSessions Session.Still) m)
    (hf : ∀ a, Steps (Leads Session.Paid Session.Paid) (f a)) :
    Steps (Leads Session.Paid Session.Paid) (m >>= f) := by
  have hstop : ∀ s s' : ReadState n, OnSessions Session.Still s s' → Leads Session.Paid Session.Paid s s' :=
    fun s s' h => h.paid
  exact .bind_of hstop (fun s s' s'' h h' hp => h' (hstop s s' h hp)) hm hf

/-- Between the count of a packet and its dispatch. -/
theorem still_funded {m : ReadM n α} {f : α → ReadM n β} (hm : Steps (OnSessions Session.Still) m)
    (hf : ∀ a, Steps (Leads Session.Funded Session.Paid) (f a)) :
    Steps (Leads Session.Funded Session.Paid) (m >>= f) := by
  have hkeep : ∀ s s' : ReadState n, OnSessions Session.Still s s' →
      Leads Session.Funded Session.Funded s s' := fun s s' h => h.funded
  exact .bind_of (fun s s' h hp => (hkeep s s' h hp).paid) (fun s s' s'' h h' hp => h' (hkeep s s' h hp))
    hm hf

theorem nextPacketSize_funds :
    Steps (Leads Session.Paid Session.Funded) (nextPacketSize b : ReadM n ℕ) := by
  have hs := Session.still_idle
  have hcount : Steps (Leads (n := n) Session.Paid Session.Funded) (onSession Session.count) :=
    fun _ hp => hp.count
  have hkeep : ∀ s s' s'' : ReadState n, Leads Session.Paid Session.Funded s s' →
      OnSessions Session.Still s' s'' → Leads Session.Paid Session.Funded s s'' :=
    fun s s' s'' h h' hp => h'.funded (h hp)
  refine .bind_of (fun _ _ => id) hkeep hcount fun _ => ?_
  exact .bind hs.trans' (.ask hs.refl' _) fun _ =>
    .bind hs.trans' (fun _ => hs.decoded _ _) fun _ => .pure hs.refl' _

/-- A packet is counted, and then `m` dispatches it or does not. -/
theorem counted_paid {m : ℕ → ReadM n α} (hm : ∀ size, Steps (Leads Session.Funded Session.Paid) (m size)) :
    Steps (Leads Session.Paid Session.Paid) (nextPacketSize b >>= m) := by
  refine .bind_of (fun s s' h hp => (h hp).paid) ?_ (nextPacketSize_funds b) hm
  exact fun s s' s'' h h' hp => h' (h hp)

theorem takePacket_spends (packetSize : ℕ) :
    Steps (Leads Session.Funded Session.Paid) (takePacket b socket packetSize : ReadM n Unit) := by
  have hs := Session.still_idle
  refine still_funded (.ask hs.refl' _) fun packet => ?_
  exact still_funded (hs.onBuffer _) fun _ s h => h.dispatch socket packet

/-- What is done with a packet that was counted: it is dispatched, and `m` does what is left. -/
theorem taken_paid {m : Unit → ReadM n α} (hm : ∀ a, Steps (Leads Session.Paid Session.Paid) (m a))
    (packetSize : ℕ) :
    Steps (Leads Session.Funded Session.Paid) (takePacket b socket packetSize >>= m) := by
  refine .bind_of (fun _ _ => id) ?_ (takePacket_spends b socket packetSize) hm
  exact fun s s' s'' h h' hp => h' (h hp)

theorem readSingleShot_paid : Steps (Leads Session.Paid Session.Paid) (readSingleShot b socket : ReadM n _) := by
  have hs := Session.still_idle
  have hclose : Steps (Leads Session.Paid Session.Paid) (closeSocket : ReadM n _) := fun s =>
    (hs.closeSocket s).paid
  refine still_paid (hs.onBuffer _) fun _ => ?_
  refine still_paid (hs.receive _) fun _ => ?_
  refine .ite hclose ?_
  refine counted_paid b fun packetSize => ?_
  refine still_funded (hs.receive _) fun _ => ?_
  refine .ite (fun s h => (hs.closeSocket s).paid h.paid) ?_
  refine still_funded (hs.checkPacketSize b _) fun _ => ?_
  exact taken_paid b socket (fun _ s h => h) packetSize

theorem readFrame_paid {loop : ℕ → ReadM n ClientPollResult}
    (hloop : ∀ k, Steps (Leads Session.Paid Session.Paid) (loop k)) (bytesToRead : ℕ) :
    Steps (Leads Session.Paid Session.Paid) (readFrame b socket loop bytesToRead) := by
  have hs := Session.still_idle
  refine counted_paid b fun packetSize => ?_
  refine still_funded (hs.onBuffer _) fun _ => ?_
  refine still_funded (hs.checkPacketSize b _) fun _ => ?_
  refine still_funded (hs.readExtra b _ _) fun bytesToRead => ?_
  rcases bytesToRead with _ | bytesToRead
  · exact fun s h => (hs.closeSocket s).paid h.paid
  · exact taken_paid b socket (fun _ => .ite (hloop _) fun s h => h) packetSize

theorem multiShotLoop_paid (fuel : ℕ) : ∀ bytesToRead, Steps (Leads Session.Paid Session.Paid)
    (multiShotLoop b socket fuel bytesToRead : ReadM n ClientPollResult) := by
  have hs := Session.still_idle
  induction fuel with
  | zero => exact fun _ s h => h
  | succ fuel ih =>
    intro bytesToRead
    refine still_paid (hs.refill b _) fun bytesToRead => ?_
    rcases bytesToRead with _ | bytesToRead
    · exact fun s => (hs.closeSocket s).paid
    · exact readFrame_paid b socket ih bytesToRead

/-- **Every packet that a read dispatches has been counted**, by a count of its own. -/
theorem readForSingleSocket_paid (shot : Shot) :
    Steps (Leads Session.Paid Session.Paid)
      (readForSingleSocket b shot socket : ReadM n ClientPollResult) := by
  cases shot with
  | single => exact readSingleShot_paid b socket
  | multi => exact still_paid (Session.still_idle.onBuffer _) fun _ => multiShotLoop_paid b socket _ _

end Dispatches

section SingleShot

/-- At most one count. -/
def CountsOnce (s s' : ReadState n) : Prop :=
  s'.session.ticks = s.session.ticks ∨ s'.session.ticks = s.session.ticks + 1

theorem nextPacketSize_once : Steps CountsOnce (nextPacketSize b : ReadM n ℕ) := by
  have hq := Session.uncounted_quiet 0
  have hcount : Steps (fun s s' : ReadState n => s'.session.ticks = s.session.ticks + 1)
      (onSession Session.count) := fun _ => rfl
  refine .bind_of (fun _ _ h => Or.inr h) (fun s s' s'' h h' => ?_) hcount fun _ =>
    .bind hq.trans' (.ask hq.refl' _) fun _ =>
      .bind hq.trans' (fun _ => hq.decoded _ _) fun _ => .pure hq.refl' _
  exact Or.inr (Eq.trans h' h)

/-- **A single-shot read counts once at most.** -/
theorem readSingleShot_once : Steps CountsOnce (readSingleShot b socket : ReadM n _) := by
  have hq := Session.uncounted_quiet socket
  have hbefore : ∀ s s' s'' : ReadState n,
      OnSessions Session.Uncounted s s' → CountsOnce s' s'' → CountsOnce s s'' :=
    fun _ _ _ h h' => h'.imp (·.trans h) (·.trans (congrArg (· + 1) h))
  have hafter : ∀ s s' s'' : ReadState n,
      CountsOnce s s' → OnSessions Session.Uncounted s' s'' → CountsOnce s s'' :=
    fun _ _ _ h h' => h.imp (Eq.trans h') (Eq.trans h')
  have hclose : Steps CountsOnce (closeSocket : ReadM n _) := fun s => Or.inl (hq.closeSocket s)
  refine .bind_of (fun _ _ => Or.inl) hbefore (hq.onBuffer _) fun _ => ?_
  refine .bind_of (fun _ _ => Or.inl) hbefore (hq.receive _) fun _ => ?_
  refine .ite hclose ?_
  refine .bind_of (fun _ _ => id) hafter (nextPacketSize_once b) fun packetSize => ?_
  refine .bind hq.trans' (hq.receive _) fun _ => ?_
  refine .ite hq.closeSocket ?_
  refine .bind hq.trans' (hq.checkPacketSize b _) fun _ => ?_
  exact .bind hq.trans' (hq.takePacket b _) fun _ => .pure hq.refl' _

end SingleShot

section MultiShot

/-- One length field, and those that `rest` finds if bytes have already arrived behind its
packet. -/
def lengthFieldsFrom (rest : ℕ → List Byte → List RecvEvent → ℕ) (o : ℕ) (u : List Byte)
    (events : List RecvEvent) : ℕ :=
  if lengthOf b u < (u.drop sizeBytes).length then
    rest (o + sizeBytes + lengthOf b u) ((u.drop sizeBytes).drop (lengthOf b u)) events + 1
  else 1

/-- The length fields in the bytes `u` that lie at the offset `o`, and in those that arrive
while they are parsed. -/
def lengthFieldsAt (n : ℕ) : ℕ → ℕ → List Byte → List RecvEvent → ℕ
  | 0, _, _, _ => 0
  | fuel + 1, o, u, events =>
    if sizeBytes ≤ u.length then lengthFieldsFrom b (lengthFieldsAt n fuel) o u events
    else
      let off := offerOnce b (n - (o + u.length)) events
      if off.refused then 0 else lengthFieldsFrom b (lengthFieldsAt n fuel) o (u ++ off.bytes) off.rest

/-- The length fields that one multi-shot read comes upon. -/
def lengthFields (n : ℕ) (events : List RecvEvent) : ℕ :=
  lengthFieldsAt b n (2 * n + 2) 0 [] events

variable {s s' : ReadState n} {o packetSize : ℕ} {v : List Byte} {events : List RecvEvent}
  {r : ClientPollResult}

theorem takePacket_moves (h : Holds s o v events) (hp : packetSize ≤ v.length)
    (hs : takePacket b socket packetSize s = (.ok (), s')) :
    Holds s' (o + packetSize) (v.drop packetSize) events := by
  obtain ⟨s1, hs1, hh1, -⟩ := offsetBy_holds b h hp
  rcases hr : ofBuffer b socket s.inb.buffer (BitVec.ofNat 16 packetSize) with e | p
  · have hpacket : fromBuffer (fun buf => ofBuffer b socket buf (BitVec.ofNat 16 packetSize)) s =
        (.error e, s) := by
      simp only [fromBuffer, ask, hr]
    rw [takePacket, bind_error hpacket] at hs
    cases hs
  · have hpacket : fromBuffer (fun buf => ofBuffer b socket buf (BitVec.ofNat 16 packetSize)) s =
        (.ok p, s) := by
      simp only [fromBuffer, ask, hr]
    rw [takePacket, bind_ok hpacket, bind_ok hs1] at hs
    cases hs
    exact ⟨hh1.offset, hh1.fits, hh1.bytes, hh1.events⟩

theorem takePacket_ticks (hs : takePacket b socket packetSize s = (.ok (), s')) :
    s'.session.ticks = s.session.ticks := by
  have h := (Session.uncounted_quiet socket).takePacket b packetSize s
  rwa [hs] at h

theorem readBody_ticks (fuel k : ℕ) (h : Holds s o v events)
    (hv : ∃ w : PacketSize, w.toSizeT = packetSize)
    (hloop : ∀ s' : ReadState n, Holds s' (o + packetSize) (v.drop packetSize) events →
      (multiShotLoop b socket fuel (v.drop packetSize).length s').1 = .ok r →
      (multiShotLoop b socket fuel (v.drop packetSize).length s').2.session.ticks =
        s'.session.ticks + k)
    (hr : (readBody b socket (multiShotLoop b socket fuel) packetSize v.length s).1 = .ok r) :
    (readBody b socket (multiShotLoop b socket fuel) packetSize v.length s).2.session.ticks =
      s.session.ticks + if packetSize < v.length then k else 0 := by
  have hn := h.fits
  have hsize := s.inb.buffer.size_lt
  by_cases hp : n ≤ packetSize
  · rw [readBody_tooLarge b socket _ hp] at hr
    cases hr
  have hcheck := checkPacketSize_ok (s := s) b (show packetSize < n by omega)
  by_cases hl : v.length < packetSize
  · rw [if_neg (by omega), Nat.add_zero]
    have hle := offer_length_le b (packetSize - v.length) events {}
    rcases readExtra_cases b h hl (by omega) with ⟨-, s1, hs1, -⟩ | ⟨-, s1, hs1, -, hf1⟩ |
      ⟨ha, s1, hs1, -, hf1⟩
    · rw [readBody, bind_ok hcheck, bind_error hs1] at hr
      cases hr
    · rw [readBody, bind_ok hcheck, bind_ok hs1, ← hf1.session]
      rfl
    · rcases (show v.length + (offer b (packetSize - v.length) events {}).bytes.length ≤ packetSize by
        omega).lt_or_eq with hlt | heq
      · obtain ⟨e, t, ht, -⟩ := readBody_short b socket fuel h (by omega) hv hlt ha
        rw [ht] at hr
        cases hr
      · rcases htake : takePacket b socket packetSize s1 with ⟨e | u, s2⟩
        · rw [readBody, bind_ok hcheck, bind_ok hs1] at hr
          dsimp only at hr
          rw [bind_error htake] at hr
          cases hr
        · rw [readBody, bind_ok hcheck, bind_ok hs1]
          dsimp only
          rw [bind_ok htake, heq, subSize_of_le le_rfl (by omega), Nat.sub_self, if_neg (lt_irrefl 0)]
          exact (takePacket_ticks b socket htake).trans (congrArg Session.ticks hf1.session)
  · rcases htake : takePacket b socket packetSize s with ⟨e | u, s2⟩
    · rw [readBody, bind_ok hcheck, bind_ok (readExtra_enough b (by omega))] at hr
      dsimp only at hr
      rw [bind_error htake] at hr
      cases hr
    have hticks := takePacket_ticks b socket htake
    have hstart : readBody b socket (multiShotLoop b socket fuel) packetSize v.length s =
        (if 0 < (v.drop packetSize).length then
          multiShotLoop b socket fuel (v.drop packetSize).length
          else return { read := true } : ReadM n ClientPollResult) s2 := by
      rw [readBody, bind_ok hcheck, bind_ok (readExtra_enough b (by omega)), List.length_drop,
        ← subSize_of_le (show packetSize ≤ v.length by omega) (by omega)]
      exact bind_ok htake
    rw [hstart] at hr ⊢
    rw [List.length_drop] at hr ⊢
    by_cases hpos : packetSize < v.length
    · rw [if_pos (by omega)] at hr ⊢
      rw [if_pos hpos, ← hticks]
      have hrest := hloop s2 (takePacket_moves b socket h (by omega) htake)
      rw [List.length_drop] at hrest
      exact hrest hr
    · rw [if_neg (by omega), if_neg hpos]
      exact hticks

/-- **A multi-shot read that returns has counted every length field that it came upon.** -/
theorem multiShotLoop_ticks (fuel : ℕ) : ∀ (s : ReadState n) (o : ℕ) (u : List Byte)
    (events : List RecvEvent), Holds s o u events →
    (multiShotLoop b socket fuel u.length s).1 = .ok r →
    (multiShotLoop b socket fuel u.length s).2.session.ticks =
      s.session.ticks + lengthFieldsAt b n fuel o u events := by
  induction fuel with
  | zero =>
    intro s o u events h hr
    cases hr
  | succ fuel ih =>
    intro s o u events h hr
    -- an iteration that has a whole length field
    have hwhole : ∀ {s' : ReadState n} {u' : List Byte} {events' : List RecvEvent},
        Holds s' o u' events' → sizeBytes ≤ u'.length → s'.session.ticks = s.session.ticks →
        multiShotLoop b socket (fuel + 1) u.length s =
          readFrame b socket (multiShotLoop b socket fuel) u'.length s' →
        (multiShotLoop b socket (fuel + 1) u.length s).2.session.ticks =
          s.session.ticks + lengthFieldsFrom b (lengthFieldsAt b n fuel) o u' events' := by
      intro s' u' events' hh hu ht hrun
      obtain ⟨s2, hs2, hh2, hf2⟩ := readFrame_eq b socket (multiShotLoop b socket fuel) hh hu
      have ht2 : s2.session.ticks = s.session.ticks + 1 := by
        rw [hf2.session, ← ht]
        rfl
      rw [hrun, hs2] at hr ⊢
      rw [readBody_ticks b socket fuel _ hh2 (lengthOf_val b u') (fun s3 hh3 => ih s3 _ _ _ hh3) hr, ht2,
        lengthFieldsFrom]
      split_ifs <;> omega
    by_cases hu : sizeBytes ≤ u.length
    · rw [lengthFieldsAt, if_pos hu]
      exact hwhole h hu rfl (multiShotLoop_refilled b socket (refill_enough b hu) fuel)
    rw [lengthFieldsAt, if_neg hu]
    dsimp only
    rcases refill_cases b h (by omega) with ⟨-, s1, hs1, -⟩ | ⟨hrf, s1, hs1, -, hf1⟩ |
      ⟨ha, s1, hs1, hh1, hf1⟩
    · rw [multiShotLoop, bind_error hs1] at hr
      cases hr
    · rw [if_pos hrf, multiShotLoop, bind_ok hs1, ← hf1.session]
      rfl
    rw [if_neg (Offer.not_refused ha)]
    rw [← List.length_append] at hs1
    have hrun := multiShotLoop_refilled b socket hs1 fuel
    by_cases h2 : sizeBytes ≤ (u ++ (offerOnce b (n - (o + u.length)) events).bytes).length
    · exact hwhole hh1 h2 (congrArg Session.ticks hf1.session) hrun
    · -- one byte of the length field alone: the read does not return
      have hpos := List.length_pos_iff.mpr ha.1
      obtain ⟨e, t, ht, -⟩ := readFrame_short b socket fuel hh1
        (by simp only [sizeBytes, List.length_append] at h2 ⊢; omega)
      rw [hrun, ht] at hr
      cases hr

theorem readMultiShot_ticks (s : ReadState n) (hr : (readMultiShot b socket s).1 = .ok r) :
    (readMultiShot b socket s).2.session.ticks =
      s.session.ticks + lengthFields b n s.inb.events := by
  obtain ⟨s0, hh0, hs0, hrun⟩ := readMultiShot_start b socket s
  rw [hrun] at hr ⊢
  rw [multiShotLoop_ticks b socket _ s0 0 [] _ hh0 hr, hs0]
  rfl

end MultiShot

end PollServer
