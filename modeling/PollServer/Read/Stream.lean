import PollServer.Read.Agreement
import PollServer.Read.Whole
import PollServer.Model.ClientInfos

/-! What a read takes from a stream of packets of which any part may have arrived. As long
as the read goes on from whole length fields and whole payloads only, it acts on the packets
at the front of the stream, and it leaves the stream behind one of them or shuts the
connection down. -/

namespace PollServer

open Lib StopM NetworkPacket ReadM

/-- A packet with a whole command, whose size the length field tells. -/
structure Framed (p : NetworkPacket) : Prop where
  command : p.command.length = commandSize
  size : (payload p).length < 2 ^ 16

/-- The packets `taken` were acted on, and of what came behind them `mid` was received. -/
structure Took (b : Build) (socket : ℤ) (ps : List NetworkPacket) (u : List Byte)
    (events : List RecvEvent) (ses : Session) (events' : List RecvEvent) (ses' : Session)
    (taken rest : List NetworkPacket) (mid : List Byte) : Prop where
  packets : ps = taken ++ rest
  stream : u ++ arrived events = wire b.order taken ++ (mid ++ arrived events')
  dispatched : ses'.dispatched = ses.dispatched ++ taken.map fun q => { q with socket := socket }
  shut : mid = [] ∨ ses'.shutdown = true

theorem prefix_split {α : Type} {a c d e : List α} (h : a ++ c <+: d ++ e) (hl : a.length = d.length) :
    a = d ∧ c <+: e := by
  obtain ⟨t, ht⟩ := h
  rw [List.append_assoc] at ht
  obtain ⟨had, hce⟩ := List.append_inj ht hl
  exact ⟨had, t, hce⟩

theorem front_header {order : ByteOrder} {ps : List NetworkPacket} {u v : List Byte}
    (h : u ++ v <+: wire order ps) (hu : sizeBytes ≤ u.length) :
    ∃ q qs, ps = q :: qs ∧ u = sizeBuffer (hostToNetwork order q.size) ++ u.drop sizeBytes ∧
      u.drop sizeBytes ++ v <+: payload q ++ wire order qs := by
  cases ps with
  | nil =>
    have hnil := List.prefix_nil.mp h
    rw [(List.append_eq_nil_iff.mp hnil).1] at hu
    exact absurd hu (by decide)
  | cons q qs =>
    have hsplit : u.take sizeBytes ++ (u.drop sizeBytes ++ v) <+:
        sizeBuffer (hostToNetwork order q.size) ++ (payload q ++ wire order qs) := by
      rw [← List.append_assoc, List.take_append_drop, ← wire_cons]
      exact h
    obtain ⟨htake, hrest⟩ := prefix_split hsplit
      (by rw [List.length_take, length_sizeBuffer, Nat.min_eq_left hu])
    refine ⟨q, qs, rfl, ?_, hrest⟩
    rw [← htake, List.take_append_drop]

/-- The length field of a packet tells its size, or what no buffer takes. -/
theorem lengthOf_framed (b : Build) {q : NetworkPacket} (hq : Framed q) {u : List Byte}
    (hl : lengthOf b (sizeBuffer (hostToNetwork b.order q.size) ++ u) < 2 ^ 63) :
    lengthOf b (sizeBuffer (hostToNetwork b.order q.size) ++ u) = (payload q).length := by
  have hsize : lengthOf b (sizeBuffer (hostToNetwork b.order q.size) ++ u) = q.size.toSizeT := by
    rw [lengthOf, List.take_left' (length_sizeBuffer _), packetSizeOf_sizeBuffer]
  rw [hsize] at hl ⊢
  obtain ⟨hlt, hnarrow⟩ := toSizeT_narrow hl
  have heq := congrArg BitVec.toNat hnarrow
  rw [NetworkPacket.size] at heq ⊢
  have hframed := hq.size
  rw [payload, List.length_append] at hframed ⊢
  rw [NetworkPacket.size] at hlt
  simp only [BitVec.toNat_ofNat] at heq
  omega

section MultiShot

variable {n : ℕ} {b : Build} {socket : ℤ}

theorem Ends.of_run {m : ReadM n ClientPollResult} {s s' : ReadState n}
    {out r : Except Stop ClientPollResult} {events : List RecvEvent} {ses : Session}
    (h : Ends m s out events ses) (hr : m s = (r, s')) :
    r = out ∧ s'.inb.events = events ∧ s'.session = ses := by
  obtain ⟨hout, hevents, hsession⟩ := h
  rw [hr] at hout hevents hsession
  exact ⟨hout, hevents, hsession⟩

theorem arrived_offerOnce (len : ℕ) (events : List RecvEvent) :
    arrived events = (offerOnce b len events).bytes ++ arrived (offerOnce b len events).rest := by
  induction events with
  | nil => rfl
  | cons event rest ih =>
    cases event with
    | arrive bytes =>
      simp only [offerOnce, leftover]
      split_ifs with h
      · rw [arrived, List.take_of_length_le h]
      · rw [arrived, arrived, ← List.append_assoc, List.take_append_drop]
    | fail errorCode =>
      unfold offerOnce
      split
      · rfl
      · rfl
      · split_ifs
        · rfl
        · rw [Offer.cons_bytes, Offer.cons_rest]
          exact ih

theorem HasHeader.stream {o : ℕ} {u u' : List Byte} {events events' : List RecvEvent}
    (h : HasHeader b n o u events u' events') :
    sizeBytes ≤ u'.length ∧ u ++ arrived events = u' ++ arrived events' := by
  cases h with
  | enough hu => exact ⟨hu, rfl⟩
  | more hu ha h2 =>
    refine ⟨h2, ?_⟩
    rw [List.append_assoc, ← arrived_offerOnce]

theorem HasHeader.packet (hn : n < 2 ^ 63) {o : ℕ} {u u' : List Byte}
    {events events' : List RecvEvent} (h : HasHeader b n o u events u' events')
    (hp : lengthOf b u' < n) {ps : List NetworkPacket} (hps : ∀ q ∈ ps, Framed q)
    (hu : u ++ arrived events <+: wire b.order ps) :
    ∃ q qs, ps = q :: qs ∧ Framed q ∧ lengthOf b u' = (payload q).length ∧
      u ++ arrived events =
        sizeBuffer (hostToNetwork b.order q.size) ++ (u'.drop sizeBytes ++ arrived events') ∧
      u'.drop sizeBytes ++ arrived events' <+: payload q ++ wire b.order qs := by
  obtain ⟨h2, hstream⟩ := h.stream
  rw [hstream] at hu ⊢
  obtain ⟨q, qs, rfl, hu', hrest⟩ := front_header hu h2
  have hq := hps q List.mem_cons_self
  refine ⟨q, qs, rfl, hq, ?_, ?_, hrest⟩
  · rw [hu']
    exact lengthOf_framed b hq (by rw [← hu']; omega)
  · rw [← List.append_assoc, ← hu']

theorem Took.cons {q : NetworkPacket} {qs taken rest : List NetworkPacket} {u v mid : List Byte}
    {events events1 events' : List RecvEvent} {ses ses1 ses' : Session}
    (h : Took b socket qs v events1 ses1 events' ses' taken rest mid)
    (hd : ses1.dispatched = ses.dispatched ++ [{ q with socket := socket }])
    (hs : u ++ arrived events =
      sizeBuffer (hostToNetwork b.order q.size) ++ (payload q ++ (v ++ arrived events1))) :
    Took b socket (q :: qs) u events ses events' ses' (q :: taken) rest mid where
  packets := by rw [h.packets, List.cons_append]
  stream := by
    rw [hs, h.stream, wire_cons]
    simp only [List.append_assoc]
  dispatched := by rw [h.dispatched, hd, List.map_cons, List.append_assoc, List.singleton_append]
  shut := h.shut

theorem Took.nil (qs : List NetworkPacket) (events : List RecvEvent) (ses : Session) :
    Took b socket qs [] events ses events ses [] qs [] := ⟨rfl, rfl, by simp, Or.inl rfl⟩

/-- **A multi-shot read that returns took packets from the front of the stream.** -/
theorem Reads.took (hn : n < 2 ^ 63) {o : ℕ} {u : List Byte} {events events' : List RecvEvent}
    {ses ses' : Session} {out : Except Stop ClientPollResult} {r : ClientPollResult}
    (hr : Reads b n socket o u events ses out events' ses') (hout : out = .ok r)
    {ps : List NetworkPacket} (hps : ∀ q ∈ ps, Framed q) (hu : u ++ arrived events <+: wire b.order ps) :
    ∃ taken rest mid, Took b socket ps u events ses events' ses' taken rest mid := by
  induction hr generalizing ps with
  | @refused o u events ses hshort hr =>
    refine ⟨[], ps, u ++ (offerOnce b (n - (o + u.length)) events).bytes, rfl, ?_, by simp, Or.inr rfl⟩
    rw [List.append_assoc, ← arrived_offerOnce]
    rfl
  | tooLarge => cases hout
  | @extraRefused o u events u' events' ses hh hp hv hr =>
    obtain ⟨-, hstream⟩ := hh.stream
    have hoffer := arrived_offer b (lengthOf b u' - (u'.drop sizeBytes).length) events' {}
    refine ⟨[], ps, u' ++ (offer b (lengthOf b u' - (u'.drop sizeBytes).length) events' {}).bytes,
      rfl, ?_, by simp, Or.inr rfl⟩
    rw [hstream, List.append_assoc, ← hoffer]
    rfl
  | @extra o u events u' events' ses hh hp hv hc he =>
    obtain ⟨q, qs, rfl, hq, hl, hstream, hrest⟩ := hh.packet hn hp hps hu
    have hoffer := arrived_offer b (lengthOf b u' - (u'.drop sizeBytes).length) events' {}
    have hlen := offer_complete b _ events' {} he
    set off := offer b (lengthOf b u' - (u'.drop sizeBytes).length) events' {}
    rw [hoffer] at hstream
    rw [hoffer, ← List.append_assoc] at hrest
    obtain ⟨hpayload, -⟩ := prefix_split hrest (by rw [List.length_append]; omega)
    refine ⟨[q], qs, [], (Took.nil qs off.rest _).cons ?_ ?_⟩
    swap
    · rw [hstream, ← hpayload]
      simp only [List.append_assoc, List.nil_append]
    rw [Session.dispatched_dispatch, Session.dispatched_headed, hpayload, hl]
    rw [payload, front_payload socket hq.command rfl]
  | @last o u events u' events' ses hh hp ht hl' =>
    obtain ⟨q, qs, rfl, hq, hl, hstream, hrest⟩ := hh.packet hn hp hps hu
    obtain ⟨hpayload, -⟩ := prefix_split hrest (by omega)
    refine ⟨[q], qs, [], (Took.nil qs events' _).cons ?_ (by rw [hstream, hpayload]; rfl)⟩
    rw [Session.dispatched_dispatch, Session.dispatched_headed, hpayload, hl]
    rw [payload, front_payload socket hq.command rfl]
  | @next o u events u' events' ses out events'' ses'' hh hp ht hl' hr ih =>
    obtain ⟨q, qs, rfl, hq, hl, hstream, hrest⟩ := hh.packet hn hp hps hu
    have hsplit := List.take_append_drop (lengthOf b u') (u'.drop sizeBytes)
    rw [← hsplit, List.append_assoc] at hrest
    obtain ⟨hpayload, hbehind⟩ := prefix_split hrest (by rw [List.length_take]; omega)
    obtain ⟨taken, rest, mid, hih⟩ := ih hout (fun p hp => hps p (List.mem_cons_of_mem q hp)) hbehind
    refine ⟨q :: taken, rest, mid, hih.cons ?_ ?_⟩
    · rw [Session.dispatched_dispatch, Session.dispatched_headed, ← hsplit, hpayload, hl,
        front_payload_append socket hq.command]
    · rw [hstream, ← List.append_assoc (payload q), ← hpayload, hsplit]

theorem readMultiShot_took {s : ReadState n} {r : ClientPollResult} {s' : ReadState n}
    (hserved : Served n b socket s.inb.events s.session)
    (h : readMultiShot b socket s = (.ok r, s')) {ps : List NetworkPacket}
    (hps : ∀ q ∈ ps, Framed q) (hu : arrived s.inb.events <+: wire b.order ps) :
    ∃ taken rest mid,
      Took b socket ps [] s.inb.events s.session s'.inb.events s'.session taken rest mid := by
  obtain ⟨out, events', ses', hreads⟩ := hserved
  obtain ⟨hout, hevents, hsession⟩ := (readMultiShot_reads b socket hreads).of_run h
  rw [← hevents, ← hsession] at hreads
  exact hreads.took s.inb.buffer.size_lt hout.symm hps hu

end MultiShot

section SingleShot

variable {n : ℕ} {b : Build} {socket : ℤ}

/-- Neither the receive of the length field breaks off nor that of the payload. -/
def Unbroken (b : Build) (events : List RecvEvent) : Prop :=
  ¬BreaksOff b sizeBytes events ∧
    ¬BreaksOff b (lengthOf b (offer b sizeBytes events {}).bytes) (offer b sizeBytes events {}).rest

theorem complete_of_accepted {need : ℕ} {events : List RecvEvent}
    (ha : (offer b need events {}).accepted) (hb : ¬BreaksOff b need events) :
    (offer b need events {}).ending = .complete :=
  ha.2.resolve_right fun hq => hb ⟨ha.1, hq⟩

/-- The payload of a packet of the stream is taken whole, or the connection is shut down. -/
theorem payloadRead_took {s s' : ReadState n} {a : List Byte} {events : List RecvEvent}
    (hh : HoldsAll s a events) {packetSize : ℕ} (hv : ∃ v : PacketSize, v.toSizeT = packetSize)
    {q : NetworkPacket} {qs : List NetworkPacket} (hq : Framed q)
    (hl : packetSize < n → packetSize = (payload q).length)
    (hu : arrived events <+: payload q ++ wire b.order qs) (hb : ¬BreaksOff b packetSize events)
    {r : ClientPollResult} (h : payloadRead b socket packetSize s = (.ok r, s')) :
    (∃ mid, arrived events = mid ++ arrived s'.inb.events ∧ s'.session = s.session.close) ∨
      (arrived events = payload q ++ arrived s'.inb.events ∧
        s'.session = s.session.dispatch socket { q with socket := socket }) := by
  have hoffer := arrived_offer b packetSize events {}
  have hc := hq.command
  have hok : (payloadRead b socket packetSize s).1 = .ok r := by rw [h]
  have hs : packetSize < 2 ^ 64 := by
    obtain ⟨v, rfl⟩ := hv
    exact BitVec.isLt _
  by_cases hfit : (offer b packetSize events {}).bytes.length ≤ n
  swap
  · rw [(payloadRead_overrun b socket hh hs (by omega)).1] at hok
    cases hok
  rcases Offer.accepted_or (offer b packetSize events {}) with ha | hr | ha
  · rw [(payloadRead_aborted b socket hh hs hfit ha).out] at hok
    cases hok
  · obtain ⟨-, hevents, hsession⟩ := (payloadRead_refused b socket hh hs hfit hr).of_run h
    exact Or.inl ⟨_, by rw [hevents]; exact hoffer, hsession⟩
  by_cases hp : n ≤ packetSize
  · rw [(payloadRead_tooLarge b socket hh hs hfit ha hp).out] at hok
    cases hok
  have hlen := offer_complete b _ _ _ (complete_of_accepted ha hb)
  have hsize := hl (by omega)
  have hfour : commandSize ≤ packetSize := by
    rw [hsize, payload, List.length_append]
    omega
  obtain ⟨-, hevents, hsession⟩ :=
    (payloadRead_built b socket hh hv ha (by omega) (by omega) fun _ => hfour).of_run h
  rw [hoffer] at hu
  obtain ⟨hpayload, -⟩ := prefix_split hu (hlen.trans hsize)
  refine Or.inr ⟨by rw [hevents, ← hpayload]; exact hoffer, ?_⟩
  rw [hsession, hpayload, front_overwrite socket (by omega) hsize, payload, front_payload socket hc hsize]

/-- **A single-shot read that returns took one packet from the front of the stream, or shut
the connection down.** -/
theorem readSingleShot_took {s : ReadState n} {r : ClientPollResult} {s' : ReadState n}
    (hunbroken : Unbroken b s.inb.events) (h : readSingleShot b socket s = (.ok r, s'))
    {ps : List NetworkPacket} (hps : ∀ q ∈ ps, Framed q)
    (hu : arrived s.inb.events <+: wire b.order ps) :
    ∃ taken rest mid,
      Took b socket ps [] s.inb.events s.session s'.inb.events s'.session taken rest mid := by
  have hn := s.inb.buffer.size_lt
  have hoffer := arrived_offer b sizeBytes s.inb.events {}
  have hok : (readSingleShot b socket s).1 = .ok r := by rw [h]
  by_cases hfit : (offer b sizeBytes s.inb.events {}).bytes.length ≤ n
  swap
  · rw [(readSingleShot_overrun b socket (by omega)).1] at hok
    cases hok
  rcases Offer.accepted_or (offer b sizeBytes s.inb.events {}) with ha | hr | ha
  · rw [(readSingleShot_aborted b socket hfit ha).out] at hok
    cases hok
  · obtain ⟨-, hevents, hsession⟩ := (readSingleShot_refused b socket hfit hr).of_run h
    rw [hevents, hsession]
    refine ⟨[], ps, (offer b sizeBytes s.inb.events {}).bytes, rfl, ?_, by simp, Or.inr rfl⟩
    rw [← hoffer]
    rfl
  have hlen := offer_complete b _ _ _ (complete_of_accepted ha hunbroken.1)
  obtain ⟨s1, hrun, hh1, hq1, -⟩ := readSingleShot_headed b socket hfit ha (by omega)
  rw [hrun] at h
  set off := offer b sizeBytes s.inb.events {}
  rw [hoffer] at hu
  obtain ⟨q, qs, rfl, hheader, hrest⟩ := front_header hu hlen.ge
  rw [List.drop_of_length_le hlen.le, List.append_nil] at hheader
  rw [List.drop_of_length_le hlen.le, List.nil_append] at hrest
  have hq := hps q List.mem_cons_self
  have hdispatched : s1.session.dispatched = s.session.dispatched := by
    rw [hq1, Session.dispatched_headed]
  have hl : lengthOf b (overwrite s.inb.buffer.arr 0 off.bytes) = lengthOf b off.bytes := by
    rw [lengthOf, lengthOf, overwrite, List.take_zero, List.nil_append, List.take_left' hlen,
      List.take_of_length_le hlen.le]
  have hsize : lengthOf b off.bytes < n → lengthOf b off.bytes = (payload q).length := by
    intro hlt
    rw [hheader, ← List.append_nil (sizeBuffer _)] at hlt ⊢
    exact lengthOf_framed b hq (by omega)
  rw [hl] at h
  rcases payloadRead_took hh1 ⟨_, rfl⟩ hq hsize hrest hunbroken.2 h with
    ⟨mid, hmid, hsession⟩ | ⟨hpayload, hsession⟩
  · refine ⟨[], q :: qs, off.bytes ++ mid, rfl, ?_, ?_, Or.inr (by rw [hsession]; rfl)⟩
    · rw [hoffer, hmid, List.append_assoc]
      rfl
    · simp [hsession, hdispatched]
  · refine ⟨[q], qs, [], (Took.nil qs s'.inb.events s'.session).cons ?_ ?_⟩
    · rw [hsession, Session.dispatched_dispatch, hdispatched]
    · rw [hoffer, hheader, hpayload]
      rfl

end SingleShot

section Both

variable {n : ℕ} {b : Build} {shot : Shot} {socket : ℤ}

/-- **The condition under which a read goes on from whole pieces of the stream only.** -/
def InPieces (b : Build) (shot : Shot) (socket : ℤ) (s : ReadState n) : Prop :=
  match shot with
  | .single => Unbroken b s.inb.events
  | .multi => Served n b socket s.inb.events s.session

theorem readForSingleSocket_took {s s' : ReadState n} {r : ClientPollResult}
    (hw : InPieces b shot socket s) (h : readForSingleSocket b shot socket s = (.ok r, s'))
    {ps : List NetworkPacket} (hps : ∀ q ∈ ps, Framed q)
    (hu : arrived s.inb.events <+: wire b.order ps) :
    ∃ taken rest mid,
      Took b socket ps [] s.inb.events s.session s'.inb.events s'.session taken rest mid := by
  cases shot with
  | single => exact readSingleShot_took hw h hps hu
  | multi => exact readMultiShot_took hw h hps hu

end Both

end PollServer
