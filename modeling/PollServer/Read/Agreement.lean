import PollServer.Read.Fragments

/-! The multi-shot read against the single-shot read, on whole packets that have all
arrived. Both take the packets one after the other; they part where a receive of the
multi-shot read ends one byte into a length field, as it then has no room to ask for the
other byte. `Aligned` is that this never happens. -/

namespace PollServer

open Lib StopM NetworkPacket ReadM

/-- All of `bytes` has arrived, and then nothing for `k` receives. -/
def script (bytes : List Byte) (k : ℕ) : List RecvEvent :=
  (if bytes = [] then [] else [.arrive bytes]) ++ List.replicate k (.fail .eagain)

def payload (p : NetworkPacket) : List Byte := p.command ++ p.data

/-- With the buffer read up to `p`, no length field of the packets to come has its second
byte at the end of the array. A packet that reaches over the end is the last of its call,
and so is one that ends there. -/
def Aligned (n : ℕ) : ℕ → List NetworkPacket → Prop
  | _, [] => True
  | p, q :: qs =>
    let start := if p = n then 0 else p
    let behind := start + sizeBytes + (payload q).length
    start + 1 ≠ n ∧ Aligned n (if behind ≤ n then behind else 0) qs

/-- Calls while bytes remain, until one asks for termination. -/
def drain {n : ℕ} (m : ReadM n ClientPollResult) : ℕ → ReadState n → Except Stop Bool × ReadState n
  | 0, s => (.ok false, s)
  | calls + 1, s =>
    if arrived s.inb.events = [] then (.ok false, s)
    else
      match (m s).1 with
      | .error e => (.error e, (m s).2)
      | .ok r => if r.terminate then (.ok true, (m s).2) else drain m calls (m s).2

theorem script_of_ne {bytes : List Byte} (h : bytes ≠ []) (k : ℕ) :
    script bytes k = .arrive bytes :: List.replicate k (.fail .eagain) := by
  simp [script, h]

theorem arrived_script (bytes : List Byte) (k : ℕ) : arrived (script bytes k) = bytes := by
  have hrep : arrived (List.replicate k (.fail .eagain)) = [] := by
    induction k with
    | zero => rfl
    | succ k ih => rw [List.replicate_succ, arrived, ih]
  unfold script
  rw [arrived_append, hrep]
  split_ifs with h <;> simp [arrived, h]

theorem wire_cons (order : ByteOrder) (q : NetworkPacket) (qs : List NetworkPacket) :
    wire order (q :: qs) = sizeBuffer (hostToNetwork order q.size) ++ (payload q ++ wire order qs) := by
  simp [wire, marshall, payload]

theorem wire_ne_nil (order : ByteOrder) (q : NetworkPacket) (qs : List NetworkPacket) :
    wire order (q :: qs) ≠ [] := by
  intro h
  have hl := congrArg List.length h
  rw [wire_cons, List.length_append, length_sizeBuffer] at hl
  simp [sizeBytes] at hl

theorem wire_window (order : ByteOrder) (q : NetworkPacket) (qs : List NetworkPacket) {n p : ℕ}
    (h : p + sizeBytes ≤ n) :
    (wire order (q :: qs)).take (n - p) = sizeBuffer (hostToNetwork order q.size) ++
        (payload q ++ wire order qs).take (n - (p + sizeBytes)) ∧
      (wire order (q :: qs)).drop (n - p) =
        (payload q ++ wire order qs).drop (n - (p + sizeBytes)) := by
  rw [wire_cons, List.take_append, List.take_of_length_le (by rw [length_sizeBuffer]; omega),
    List.drop_append, List.drop_of_length_le (by rw [length_sizeBuffer]; omega), length_sizeBuffer,
    Nat.sub_sub, List.nil_append]
  exact ⟨rfl, rfl⟩

section Script

variable (b : Build) (k : ℕ)

theorem gives_script {bs : List Byte} (h : bs ≠ []) (rest : List Byte) :
    Gives b bs.length (script (bs ++ rest) k) bs (script rest k) := by
  have h0 : bs.length ≠ 0 := by simpa using h
  have hne : bs ++ rest ≠ [] := by simp [h]
  rw [script_of_ne hne]
  rcases rest with _ | ⟨x, rest⟩
  · rw [List.append_nil]
    constructor <;> simp [offer, h0, h, offer_done, script]
  · have hlt : bs.length < (bs ++ x :: rest).length := by simp
    constructor <;> simp [offer, h0, h, script]

theorem offerOnce_script {bs : List Byte} (h : bs ≠ []) {len : ℕ} (hl : len ≠ 0) :
    (offerOnce b len (script bs k)).bytes = bs.take len ∧
      (offerOnce b len (script bs k)).accepted ∧
      (offerOnce b len (script bs k)).rest = script (bs.drop len) k := by
  have htake : bs.take len ≠ [] := by simp [h, hl]
  rw [script_of_ne h]
  refine ⟨rfl, ⟨htake, Or.inl (by simp [offerOnce, htake])⟩, ?_⟩
  simp only [offerOnce, leftover]
  split_ifs with hle
  · simp [script, List.drop_of_length_le hle]
  · rw [script_of_ne (by simpa using hle)]

/-- A receive into no room at all is taken for a closed peer. -/
theorem offerOnce_script_zero (bs : List Byte) (h : bs ≠ []) :
    (offerOnce b 0 (script bs k)).refused := by
  rw [script_of_ne h]
  exact ⟨by simp [offerOnce], Or.inl (by simp [offerOnce])⟩

end Script

section Call

variable {n : ℕ} (b : Build) (socket : ℤ) (k : ℕ)

/-- From the offset `p` a call takes some of the packets to come: either it ends behind one
of them, and no field to come is cut off that was not before, or it ends on the first half
of a field. -/
def CallEnds (n p : ℕ) (ps : List NetworkPacket) (u : List Byte) (events : List RecvEvent)
    (ses : Session) : Prop :=
  ∃ taken rest ses', ps = taken ++ rest ∧
    ses'.dispatched = ses.dispatched ++ taken.map (fun q => { q with socket := socket }) ∧
    ((taken ≠ [] ∧ (Aligned n p ps ↔ Aligned n 0 rest) ∧
        Reads b n socket p u events ses (.ok { read := true }) (script (wire b.order rest) k) ses') ∨
      (rest ≠ [] ∧ ¬Aligned n p ps ∧
        ∃ events', Reads b n socket p u events ses (.ok { terminate := true }) events' ses'))

theorem aligned_end (ps : List NetworkPacket) : Aligned n n ps ↔ Aligned n 0 ps := by
  cases ps with
  | nil => exact Iff.rfl
  | cons q qs =>
    by_cases h : 0 = n
    · rw [← h]
    · simp only [Aligned, if_neg h, if_true]

theorem front_payload_append {q : NetworkPacket} (hc : q.command.length = commandSize) (rest : List Byte) :
    front socket (payload q).length (payload q ++ rest) = { q with socket := socket } := by
  have hle : commandSize ≤ (payload q).length := by
    rw [payload, List.length_append]
    omega
  rw [← front_payload socket hc rfl, front, front, List.take_append_of_le_length hle,
    List.take_append_of_le_length le_rfl]
  rfl

section Packet

variable {b socket k} {q : NetworkPacket} {qs : List NetworkPacket} {p : ℕ} {u v bs : List Byte}
  {events events' : List RecvEvent} {ses : Session}

theorem lengthOf_packet (hn : n ≤ 2 ^ 15) (hq : Fits n q) (v : List Byte) :
    lengthOf b (sizeBuffer (hostToNetwork b.order q.size) ++ v) = (payload q).length := by
  obtain ⟨hc, hsize⟩ := hq
  have hpl : (payload q).length = q.command.length + q.data.length := List.length_append
  exact lengthOf_sizeBuffer b (by omega) _

theorem takes_packet (hq : Fits n q) (v : List Byte) :
    Takes b (payload q).length (payload q ++ v) := by
  obtain ⟨hc, -⟩ := hq
  have hpl : (payload q).length = q.command.length + q.data.length := List.length_append
  have hv : (payload q ++ v).length = (payload q).length + v.length := List.length_append
  exact ⟨by omega, by omega, fun _ => by omega⟩

theorem reads_last (hn : n ≤ 2 ^ 15) (hq : Fits n q)
    (hh : HasHeader b n p u events
      (sizeBuffer (hostToNetwork b.order q.size) ++ (payload q ++ [])) events') :
    Reads b n socket p u events ses (.ok { read := true }) events'
      ((ses.headed b (sizeBuffer (hostToNetwork b.order q.size) ++ (payload q ++ []))).dispatch socket
        { q with socket := socket }) := by
  have hlen := lengthOf_packet (b := b) hn hq (payload q ++ [])
  have hdrop : (sizeBuffer (hostToNetwork b.order q.size) ++ (payload q ++ [])).drop sizeBytes =
      payload q ++ [] := List.drop_left' (length_sizeBuffer _)
  have hreads : Reads b n socket p u events ses _ _ _ :=
    .last hh (by rw [hlen]; exact (List.length_append.trans_lt hq.size))
      (by rw [hlen, hdrop]; exact takes_packet hq []) (by rw [hlen, hdrop, List.append_nil])
  rw [hlen, hdrop, front_payload_append socket hq.command] at hreads
  exact hreads

theorem reads_next (hn : n ≤ 2 ^ 15) (hq : Fits n q)
    (hh : HasHeader b n p u events
      (sizeBuffer (hostToNetwork b.order q.size) ++ (payload q ++ v)) events')
    (hv : v ≠ []) {out : Except Stop ClientPollResult} {events'' : List RecvEvent} {ses'' : Session}
    (h : Reads b n socket (p + sizeBytes + (payload q).length) v events'
      ((ses.headed b (sizeBuffer (hostToNetwork b.order q.size) ++ (payload q ++ v))).dispatch socket
        { q with socket := socket }) out events'' ses'') :
    Reads b n socket p u events ses out events'' ses'' := by
  have hlen := lengthOf_packet (b := b) hn hq (payload q ++ v)
  have hdrop : (sizeBuffer (hostToNetwork b.order q.size) ++ (payload q ++ v)).drop sizeBytes =
      payload q ++ v := List.drop_left' (length_sizeBuffer _)
  have hpos := List.length_pos_iff.mpr hv
  refine .next hh (by rw [hlen]; exact (List.length_append.trans_lt hq.size))
    (by rw [hlen, hdrop]; exact takes_packet hq v) (by rw [hlen, hdrop, List.length_append]; omega) ?_
  rw [hlen, hdrop, front_payload_append socket hq.command, List.drop_left' rfl]
  exact h

/-- The packet reaches over the end of the array. -/
theorem reads_across (hn : n ≤ 2 ^ 15) (hq : Fits n q) {m : ℕ} (hm : m < (payload q).length)
    (hh : HasHeader b n p u events (sizeBuffer (hostToNetwork b.order q.size) ++ (payload q).take m)
      (script ((payload q).drop m ++ bs) k)) :
    Reads b n socket p u events ses (.ok { read := true }) (script bs k)
      ((ses.headed b (sizeBuffer (hostToNetwork b.order q.size) ++ (payload q).take m)).dispatch socket
        { q with socket := socket }) := by
  have hlen := lengthOf_packet (b := b) hn hq ((payload q).take m)
  have hdrop : (sizeBuffer (hostToNetwork b.order q.size) ++ (payload q).take m).drop sizeBytes =
      (payload q).take m := List.drop_left' (length_sizeBuffer _)
  have hpl : (payload q).length = q.command.length + q.data.length := List.length_append
  have hcommand := hq.command
  have hl1 : ((payload q).take m).length = m := by
    rw [List.length_take]
    omega
  have hl2 : ((payload q).drop m).length = (payload q).length - m := List.length_drop
  have hgive := gives_script b k (show (payload q).drop m ≠ [] by
    rw [← List.length_pos_iff]; omega) bs
  rw [hl2] at hgive
  have hreads : Reads b n socket p u events ses _ _ _ :=
    .extra hh (by rw [hlen]; exact (List.length_append.trans_lt hq.size))
      (by rw [hlen, hdrop, hl1]; exact hm) (by rw [hlen]; omega)
      (by rw [hlen, hdrop, hl1]; exact hgive.ending)
  rw [hlen, hdrop, hl1, hgive.bytes, hgive.rest, List.take_append_drop] at hreads
  rw [payload, front_payload socket hq.command rfl] at hreads
  exact hreads

theorem aligned_cons (hp : p + sizeBytes ≤ n) : Aligned n p (q :: qs) ↔
    Aligned n (if p + sizeBytes + (payload q).length ≤ n then p + sizeBytes + (payload q).length
      else 0) qs := by
  have hb2 : sizeBytes = 2 := rfl
  have h1 : p ≠ n := by omega
  have h2 : p + 1 ≠ n := by omega
  simp only [Aligned, if_neg h1, h2, ne_eq, not_false_eq_true, true_and]

theorem dispatched_packet (v : List Byte) :
    ((ses.headed b v).dispatch socket { q with socket := socket }).dispatched =
      ses.dispatched ++ [q].map (fun q => { q with socket := socket }) := by
  rw [Session.dispatched_dispatch, Session.dispatched_headed]
  rfl

end Packet

/-- **Over a whole length field** the call takes its packet, if this holds behind it. -/
theorem callEnds_packet (hn : n ≤ 2 ^ 15) {q : NetworkPacket} {qs : List NetworkPacket}
    (hq : Fits n q) {p : ℕ} (hp : p + sizeBytes ≤ n) {u : List Byte} {events : List RecvEvent}
    {ses : Session}
    (hh : HasHeader b n p u events
      (sizeBuffer (hostToNetwork b.order q.size) ++
        (payload q ++ wire b.order qs).take (n - (p + sizeBytes)))
      (script ((payload q ++ wire b.order qs).drop (n - (p + sizeBytes))) k))
    (ih : ∀ p' ses, qs ≠ [] → p' < n → CallEnds b socket k n p' qs
      ((wire b.order qs).take (n - p')) (script ((wire b.order qs).drop (n - p')) k) ses) :
    CallEnds b socket k n p (q :: qs) u events ses := by
  set m := n - (p + sizeBytes) with hm
  have hal : Aligned n p (q :: qs) ↔ _ := aligned_cons hp
  by_cases hfit : (payload q).length ≤ m
  swap
  · -- the end of the payload is asked for
    rw [List.take_append_of_le_length (by omega), List.drop_append_of_le_length (by omega)] at hh
    rw [if_neg (by omega)] at hal
    exact ⟨[q], qs, _, rfl, dispatched_packet _,
      Or.inl ⟨by simp, hal, reads_across hn hq (by omega) hh⟩⟩
  -- the payload is in the array
  rw [List.take_append, List.take_of_length_le hfit, List.drop_append, List.drop_of_length_le hfit,
    List.nil_append] at hh
  rw [if_pos (by omega)] at hal
  by_cases hend : (wire b.order qs).take (m - (payload q).length) = []
  · -- nothing of the next packet is
    rw [hend] at hh
    have hreads : Reads b n socket p u events ses _ _ _ := reads_last hn hq hh
    rcases List.take_eq_nil_iff.mp hend with hm0 | hw
    · have hbehind : p + sizeBytes + (payload q).length = n := by omega
      rw [hbehind, aligned_end] at hal
      rw [hm0, List.drop_zero] at hreads
      exact ⟨[q], qs, _, rfl, dispatched_packet _, Or.inl ⟨by simp, hal, hreads⟩⟩
    · cases qs with
      | nil =>
        rw [hw, List.drop_nil] at hreads
        exact ⟨[q], [], _, rfl, dispatched_packet _, Or.inl ⟨by simp, hal, hreads⟩⟩
      | cons q' qs => exact absurd hw (wire_ne_nil _ _ _)
  · -- the next packet is there, or some of it
    have hqs : qs ≠ [] := by
      rintro rfl
      simp [wire] at hend
    have hpos : m - (payload q).length ≠ 0 := by
      intro h0
      rw [h0] at hend
      exact hend rfl
    have hbehind : n - (p + sizeBytes + (payload q).length) = m - (payload q).length := by omega
    obtain ⟨taken, rest, ses', rfl, hdisp, hcase⟩ := ih (p + sizeBytes + (payload q).length)
      ((ses.headed b (sizeBuffer (hostToNetwork b.order q.size) ++
        (payload q ++ (wire b.order qs).take (m - (payload q).length)))).dispatch socket
          { q with socket := socket }) hqs (by omega)
    rw [hbehind] at hcase
    refine ⟨q :: taken, rest, ses', rfl, ?_, ?_⟩
    · rw [hdisp, dispatched_packet, List.append_assoc]
      rfl
    · rcases hcase with ⟨-, hal', hreads⟩ | ⟨hne, hal', events', hreads⟩
      · exact Or.inl ⟨by simp, hal.trans hal', reads_next hn hq hh hend hreads⟩
      · exact Or.inr ⟨hne, fun h => hal' (hal.mp h), events', reads_next hn hq hh hend hreads⟩

/-- **In the middle of a call** and at its start, with the packets to come behind `p`. -/
theorem callEnds_rest (hn : n ≤ 2 ^ 15) (ps : List NetworkPacket) :
    ∀ p ses, (∀ q ∈ ps, Fits n q) → ps ≠ [] → p < n → CallEnds b socket k n p ps
      ((wire b.order ps).take (n - p)) (script ((wire b.order ps).drop (n - p)) k) ses := by
  induction ps with
  | nil => exact fun _ _ _ h => absurd rfl h
  | cons q qs ih =>
    intro p ses hfits _ hp
    have hb2 : sizeBytes = 2 := rfl
    have hih : ∀ p' ses, qs ≠ [] → p' < n → CallEnds b socket k n p' qs
        ((wire b.order qs).take (n - p')) (script ((wire b.order qs).drop (n - p')) k) ses :=
      fun p' ses => ih p' ses fun q' hq' => hfits q' (List.mem_cons_of_mem q hq')
    rw [wire_cons]
    by_cases h1 : p + 1 = n
    · -- only the first half of the length field is in the array
      have hl : (sizeBuffer (hostToNetwork b.order q.size) ++
          (payload q ++ wire b.order qs)).length = 2 + (payload q ++ wire b.order qs).length := by
        rw [List.length_append, length_sizeBuffer, hb2]
      have hu : ((sizeBuffer (hostToNetwork b.order q.size) ++
          (payload q ++ wire b.order qs)).take (n - p)).length = 1 := by
        rw [List.length_take]
        omega
      have hr := offerOnce_script_zero b k ((sizeBuffer (hostToNetwork b.order q.size) ++
        (payload q ++ wire b.order qs)).drop (n - p)) (by
          rw [← List.length_pos_iff, List.length_drop]
          omega)
      refine ⟨[], q :: qs, ses.close, rfl, by simp, Or.inr ⟨by simp, ?_, _, .refused (by omega) ?_⟩⟩
      · rintro ⟨hne, -⟩
        exact hne (by rw [if_neg (by omega)]; exact h1)
      · rw [hu, h1, Nat.sub_self]
        exact hr
    · obtain ⟨htake, hdrop⟩ := wire_window b.order q qs (show p + sizeBytes ≤ n by omega)
      rw [wire_cons] at htake hdrop
      rw [htake, hdrop]
      refine callEnds_packet b socket k hn (hfits q (List.mem_cons_self ..)) (by omega) (.enough ?_) hih
      rw [List.length_append, length_sizeBuffer]
      omega

theorem callEnds_start (hn : n ≤ 2 ^ 15) {ps : List NetworkPacket} (hfits : ∀ q ∈ ps, Fits n q)
    (hne : ps ≠ []) (ses : Session) :
    CallEnds b socket k n 0 ps [] (script (wire b.order ps) k) ses := by
  rcases ps with _ | ⟨q, qs⟩
  · exact absurd rfl hne
  have hq := hfits q (List.mem_cons_self ..)
  have hsize := hq.size
  have hc := hq.command
  have hb2 : sizeBytes = 2 := rfl
  have hc4 : commandSize = 4 := rfl
  obtain ⟨htake, hdrop⟩ := wire_window b.order q qs (show 0 + sizeBytes ≤ n by omega)
  obtain ⟨hbytes, hacc, hrest⟩ := offerOnce_script b k (wire_ne_nil b.order q qs) (show n - 0 ≠ 0 by omega)
  have hmore : HasHeader b n 0 [] (script (wire b.order (q :: qs)) k) _ _ :=
    .more (by simp [sizeBytes]) hacc (by
      rw [List.length_nil, Nat.add_zero, List.nil_append, hbytes, htake, List.length_append,
        length_sizeBuffer]
      omega)
  rw [List.length_nil, Nat.add_zero, List.nil_append, hbytes, hrest, htake, hdrop] at hmore
  exact callEnds_packet b socket k hn hq (by omega) hmore fun p' ses hqs hp' =>
    callEnds_rest b socket k hn qs p' ses (fun q' hq' => hfits q' (List.mem_cons_of_mem q hq')) hqs hp'

end Call

section Drain

variable {n : ℕ} (b : Build) (socket : ℤ) (k : ℕ)

theorem drain_done (m : ReadM n ClientPollResult) (calls : ℕ) {s : ReadState n}
    (h : s.inb.events = script [] k) : drain m calls s = (.ok false, s) := by
  cases calls with
  | zero => rfl
  | succ calls => rw [drain, h, arrived_script, if_pos rfl]

theorem drain_call {m : ReadM n ClientPollResult} (calls : ℕ) {s : ReadState n}
    {r : ClientPollResult} {events : List RecvEvent} {ses : Session} {bytes : List Byte}
    (hs : s.inb.events = script bytes k) (hne : bytes ≠ []) (h : Ends m s (.ok r) events ses) :
    drain m (calls + 1) s =
      if r.terminate then (.ok true, (m s).2) else drain m calls (m s).2 := by
  rw [drain, hs, arrived_script, if_neg hne, h.out]

/-- The multi-shot read takes all packets if they are aligned, and asks for termination
before some packet if they are not. -/
theorem drain_multiShot (hn : n ≤ 2 ^ 15) (calls : ℕ) :
    ∀ (ps : List NetworkPacket) (s : ReadState n), (∀ q ∈ ps, Fits n q) → ps.length ≤ calls →
      s.inb.events = script (wire b.order ps) k →
      (Aligned n 0 ps ∧ (drain (readMultiShot b socket) calls s).1 = .ok false ∧
        (drain (readMultiShot b socket) calls s).2.session.dispatched =
          s.session.dispatched ++ ps.map (fun q => { q with socket := socket })) ∨
      (¬Aligned n 0 ps ∧ (drain (readMultiShot b socket) calls s).1 = .ok true ∧
        ∃ taken rest, ps = taken ++ rest ∧ rest ≠ [] ∧
          (drain (readMultiShot b socket) calls s).2.session.dispatched =
            s.session.dispatched ++ taken.map (fun q => { q with socket := socket })) := by
  induction calls with
  | zero =>
    intro ps s _ hcalls hs
    obtain rfl := List.length_eq_zero_iff.mp (Nat.le_zero.mp hcalls)
    exact Or.inl ⟨trivial, rfl, by simp [drain]⟩
  | succ calls ih =>
    intro ps s hfits hcalls hs
    by_cases hps : ps = []
    · subst hps
      rw [drain_done k _ _ hs]
      exact Or.inl ⟨trivial, rfl, by simp⟩
    obtain ⟨q, qs, rfl⟩ := List.exists_cons_of_ne_nil hps
    have hstart := callEnds_start b socket k hn hfits hps s.session
    rw [← hs] at hstart
    obtain ⟨taken, rest, ses', hsplit, hdisp, ⟨hne, hal, hreads⟩ | ⟨hne, hal, events', hreads⟩⟩ := hstart
    · have hends := readMultiShot_reads b socket hreads
      rw [drain_call k calls hs (wire_ne_nil _ _ _) hends, if_neg (by simp)]
      have hlen := congrArg List.length hsplit
      have hpos := List.length_pos_iff.mpr hne
      rw [List.length_append] at hlen
      have hrest : ∀ q' ∈ rest, Fits n q' := fun q' hq' => hfits q' (by rw [hsplit]; simp [hq'])
      rcases ih rest _ hrest (by omega) hends.events with ⟨h1, h2, h3⟩ | ⟨h1, h2, t, r, rfl, hr, h3⟩
      · refine Or.inl ⟨hal.mpr h1, h2, ?_⟩
        rw [h3, hends.session, hdisp, hsplit, List.map_append, List.append_assoc]
      · refine Or.inr ⟨fun h => h1 (hal.mp h), h2, taken ++ t, r, by rw [hsplit, List.append_assoc], hr, ?_⟩
        rw [h3, hends.session, hdisp, List.map_append, List.append_assoc]
    · have hends := readMultiShot_reads b socket hreads
      rw [drain_call k calls hs (wire_ne_nil _ _ _) hends, if_pos rfl]
      exact Or.inr ⟨hal, rfl, taken, rest, hsplit, hne, by rw [hends.session, hdisp]⟩

theorem drain_singleShot (hn : n ≤ 2 ^ 15) (ps : List NetworkPacket) :
    ∀ (calls : ℕ) (s : ReadState n), (∀ q ∈ ps, Fits n q) → ps.length ≤ calls →
      s.inb.events = script (wire b.order ps) k →
      (drain (readSingleShot b socket) calls s).1 = .ok false ∧
        (drain (readSingleShot b socket) calls s).2.session.dispatched =
          s.session.dispatched ++ ps.map (fun q => { q with socket := socket }) := by
  induction ps with
  | nil =>
    intro calls s _ _ hs
    rw [drain_done k _ _ hs]
    exact ⟨rfl, by simp⟩
  | cons q qs ih =>
    intro calls s hfits hcalls hs
    rw [List.length_cons] at hcalls
    obtain ⟨calls, rfl⟩ := Nat.exists_eq_succ_of_ne_zero (show calls ≠ 0 by omega)
    have hq := hfits q (List.mem_cons_self ..)
    have hheader := gives_script b k (show sizeBuffer (hostToNetwork b.order q.size) ≠ [] by
      rw [← List.length_pos_iff, length_sizeBuffer]
      decide) (payload q ++ wire b.order qs)
    rw [length_sizeBuffer, ← wire_cons, ← hs] at hheader
    have hpayload := gives_script b k (show payload q ≠ [] by
      have hc := hq.command
      rw [← List.length_pos_iff, payload, List.length_append, hc]
      simp [commandSize]) (wire b.order qs)
    have hends := readSingleShot_packet b socket hn hq hheader hpayload
    rw [drain_call k calls hs (wire_ne_nil _ _ _) hends, if_neg (by simp)]
    obtain ⟨h1, h2⟩ := ih calls (readSingleShot b socket s).2
      (fun q' hq' => hfits q' (List.mem_cons_of_mem q hq')) (by omega) hends.events
    refine ⟨h1, ?_⟩
    rw [h2, hends.session, Session.dispatched_dispatch, List.append_assoc]
    rfl

/-- The multi-shot read acts on the same packets as the single-shot read, and asks for
termination only if that does. -/
def Agrees (calls : ℕ) (s : ReadState n) : Prop :=
  (drain (readMultiShot b socket) calls s).2.session.dispatched =
      (drain (readSingleShot b socket) calls s).2.session.dispatched ∧
    ((drain (readMultiShot b socket) calls s).1 = .ok true →
      (drain (readSingleShot b socket) calls s).1 = .ok true)

/-- **The two reads agree** on packets that have wholly arrived exactly when the packets are
aligned. -/
theorem readForSingleSocket_agrees (hn : n ≤ 2 ^ 15) {ps : List NetworkPacket}
    (hfits : ∀ q ∈ ps, Fits n q) {calls : ℕ} (hcalls : ps.length ≤ calls) {s : ReadState n}
    (hs : s.inb.events = script (wire b.order ps) k) : Agrees b socket calls s ↔ Aligned n 0 ps := by
  obtain ⟨h1, h2⟩ := drain_singleShot b socket k hn ps calls s hfits hcalls hs
  unfold Agrees
  rw [h1, h2]
  rcases drain_multiShot b socket k hn calls ps s hfits hcalls hs with
    ⟨hal, h3, h4⟩ | ⟨hal, h3, taken, rest, rfl, hne, h4⟩
  · rw [h3, h4]
    exact iff_of_true ⟨rfl, fun h => by cases h⟩ hal
  · refine iff_of_false ?_ hal
    rintro ⟨-, h⟩
    cases h h3

end Drain

/-- Three packets of 56 bytes, of which the second reaches over the end of the sample's buffer. -/
theorem readForSingleSocket_agrees_send :
    Agrees ⟨true, .little⟩ 5 3
      (sampleState (script (wire .little (List.replicate 3 ⟨5, Commands.send, List.replicate 50 65⟩)) 3)) := by
  have hfits : ∀ q ∈ List.replicate 3 (⟨5, Commands.send, List.replicate 50 65⟩ : NetworkPacket),
      Fits 106 q := by
    simp only [List.mem_replicate, and_imp]
    rintro q - rfl
    exact ⟨rfl, by decide⟩
  exact (readForSingleSocket_agrees ⟨true, .little⟩ 5 3 (by decide) hfits le_rfl rfl).mpr
    ⟨by decide, by decide, by decide, trivial⟩

/-- Two commands in a buffer of seven bytes: the length field of the second is cut in half,
and the client is dropped before it. -/
theorem readForSingleSocket_parts :
    ¬∀ (n : ℕ) (b : Build) (socket : ℤ) (k calls : ℕ) (ps : List NetworkPacket) (s : ReadState n),
      7 ≤ n → n ≤ 2 ^ 15 → (∀ q ∈ ps, Fits n q) → ps.length ≤ calls →
      s.inb.events = script (wire b.order ps) k → Agrees b socket calls s := by
  intro h
  have hfits : ∀ q ∈ List.replicate 2 (⟨5, Commands.send, []⟩ : NetworkPacket), Fits 7 q := by
    simp only [List.mem_replicate, and_imp]
    rintro q - rfl
    exact ⟨rfl, by decide⟩
  have hagree := h 7 ⟨false, .little⟩ 5 0 2 (List.replicate 2 ⟨5, Commands.send, []⟩)
    ⟨⟨.filled 0 (by decide) (by decide), script (wire .little (List.replicate 2 ⟨5, Commands.send, []⟩)) 0,
      []⟩, (sampleState []).session⟩ (by decide) (by decide) hfits (by decide) rfl
  exact absurd (congrArg List.length hagree.1) (by decide)

end PollServer
