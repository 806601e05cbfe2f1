import PollServer.Read.SingleShot

/-! What a read takes from the buffer an earlier client left. With the asserts out, a
single-shot read shows nothing of it exactly when a payload that is taken for a packet came
whole, and the length field with it; a multi-shot read shows nothing of it while it only
goes on from what came whole. -/

namespace PollServer

open Lib StopM NetworkPacket ReadM

section Isolation

variable {n : ℕ} (order : ByteOrder) (socket : ℤ)

/-- What the caller sees of a read: how it ends, the packets it hands on to be executed,
and the packets it acts on. -/
def observed (m : ReadM n ClientPollResult) (events : List RecvEvent) (ses : Session)
    (buf : Buffer n) : Except Stop ClientPollResult × List NetworkPacket × List NetworkPacket :=
  ((m ⟨⟨buf, events, []⟩, ses⟩).1, (m ⟨⟨buf, events, []⟩, ses⟩).2.session.readList,
    (m ⟨⟨buf, events, []⟩, ses⟩).2.session.dispatched)

/-- The read shows the same on every buffer as on `buf`. -/
def Isolated (m : ReadM n ClientPollResult) (events : List RecvEvent) (ses : Session)
    (buf : Buffer n) : Prop :=
  ∀ buf', observed m events ses buf' = observed m events ses buf

/-- What becomes of a payload, of which `payload` comes. -/
inductive Verdict where
  | outside
  | refused
  | tooLarge
  | built
  deriving DecidableEq

def verdict (n packetSize : ℕ) (payload : Offer) : Verdict :=
  if n < payload.bytes.length then .outside
  else if ¬payload.accepted then .refused
  else if n ≤ packetSize then .tooLarge
  else if n < commandSize then .outside
  else .built

/-- A packet takes this many bytes of the array, a command's at least. -/
def taken (packetSize : ℕ) : ℕ := max commandSize packetSize

/-- The payload behind a length field, and what becomes of it. -/
def payloadOf (packetSize : ℕ) (events : List RecvEvent) : Offer :=
  offer ⟨false, order⟩ packetSize events {}

/-- The length of a field of which the first byte is `x` and the second `y`. -/
def pairLength (x y : Byte) : ℕ := lengthOf ⟨false, order⟩ [x, y]

/-- Behind a whole length field no packet is built, or one of which all bytes came. Behind
half a length field no packet is built, and every second byte leads to the same. -/
def SingleShotWhole (n : ℕ) (events : List RecvEvent) : Prop :=
  let header := offer ⟨false, order⟩ sizeBytes events {}
  2 ≤ n → header.accepted →
    (header.bytes.length = sizeBytes →
      let packetSize := lengthOf ⟨false, order⟩ header.bytes
      let payload := payloadOf order packetSize header.rest
      verdict n packetSize payload = .built → taken packetSize ≤ payload.bytes.length) ∧
    ∀ x, header.bytes = [x] → ∃ v ≠ Verdict.built, ∀ y,
      verdict n (pairLength order x y) (payloadOf order (pairLength order x y) header.rest) = v

/-! ### The array under the received bytes -/

theorem take_overwrite {l bs : List Byte} {k : ℕ} (h : k ≤ bs.length) :
    (overwrite l 0 bs).take k = bs.take k := by
  simp only [overwrite, List.take_zero, List.nil_append]
  rw [List.take_append_of_le_length h]

theorem getElem?_overwrite {l bs : List Byte} {k : ℕ} (h : bs.length ≤ k) :
    (overwrite l 0 bs)[k]? = l[k]? := by
  simp only [overwrite, List.take_zero, List.nil_append, Nat.zero_add]
  rw [List.getElem?_append_right h, List.getElem?_drop]
  congr 1
  omega

theorem front_bytes {socket : ℤ} {packetSize : ℕ} (a : List Byte) :
    (front socket packetSize a).command ++ (front socket packetSize a).data = a.take (taken packetSize) := by
  unfold front taken
  rcases le_total packetSize commandSize with h | h
  · rw [List.drop_of_length_le (by simp; omega), List.append_nil, Nat.max_eq_left h]
  · have hc : a.take commandSize = (a.take packetSize).take commandSize := by
      rw [List.take_take, Nat.min_eq_left h]
    rw [Nat.max_eq_right h, hc, List.take_append_drop]

theorem front_congr {socket : ℤ} {packetSize : ℕ} {a a' : List Byte}
    (h : a.take (taken packetSize) = a'.take (taken packetSize)) :
    front socket packetSize a = front socket packetSize a' := by
  have htake : ∀ k ≤ taken packetSize, a.take k = a'.take k := by
    intro k hk
    rw [← Nat.min_eq_left hk, ← List.take_take, h, List.take_take]
  rw [front, front, htake commandSize (le_max_left _ _), htake packetSize (le_max_right _ _)]

theorem lengthOf_congr (b : Build) {u u' : List Byte} (h : u.take sizeBytes = u'.take sizeBytes) :
    lengthOf b u = lengthOf b u' := by
  rw [lengthOf, lengthOf, h]

theorem pairLength_ne (x : Byte) : pairLength order x 0 ≠ pairLength order x 1 := by
  intro h
  have hsize : packetSizeOf order [x, 0] = packetSizeOf order [x, 1] := toSizeT_inj h
  have hor : orBytes [x, 0] = orBytes [x, 1] := by
    cases order
    · simpa [packetSizeOf, networkToHost] using congrArg byteSwap hsize
    · exact hsize
  have hbit := congrArg (fun v : PacketSize => v.getLsbD 8) hor
  simp [orBytes_pair] at hbit

/-! ### What is shown -/

/-- The state a payload leaves, if it is taken for `packet`. -/
def afterPayload (v : Verdict) (ses : Session) (packet : NetworkPacket) :
    Except Stop ClientPollResult × Session :=
  match v with
  | .outside => (.error .outOfBounds, ses)
  | .refused => (.ok { terminate := true }, ses.close)
  | .tooLarge => (.error .invalidArgument, ses)
  | .built => (.ok { read := true }, ses.dispatch socket packet)

def shown (r : Except Stop ClientPollResult × Session) :
    Except Stop ClientPollResult × List NetworkPacket × List NetworkPacket :=
  (r.1, r.2.readList, r.2.dispatched)

theorem afterPayload_inj {v v' : Verdict} {ses ses' : Session} {packet packet' : NetworkPacket}
    (h : shown (afterPayload socket v ses packet) = shown (afterPayload socket v' ses' packet')) :
    v = v' := by
  have h1 := congrArg Prod.fst h
  cases v <;> cases v' <;> simp [afterPayload, shown] at h1 ⊢

theorem shown_headed (v : Verdict) (b : Build) (u : List Byte) (ses : Session)
    (packet : NetworkPacket) : shown (afterPayload socket v (ses.headed b u) packet) =
      shown (afterPayload socket v ses packet) := by
  cases v <;> simp [afterPayload, shown]

theorem payloadRead_verdict {s : ReadState n} {a : List Byte} {events : List RecvEvent}
    (h : HoldsAll s a events) {packetSize : ℕ} (hv : ∃ v : PacketSize, v.toSizeT = packetSize) :
    ((payloadRead ⟨false, order⟩ socket packetSize s).1,
        (payloadRead ⟨false, order⟩ socket packetSize s).2.session) =
      afterPayload socket (verdict n packetSize (payloadOf order packetSize events)) s.session
        (front socket packetSize (overwrite a 0 (payloadOf order packetSize events).bytes)) := by
  have hs : packetSize < 2 ^ 64 := by
    obtain ⟨v, rfl⟩ := hv
    exact BitVec.isLt _
  unfold verdict payloadOf
  have hna := offer_off (b := ⟨false, order⟩) rfl packetSize events {}
  split_ifs with hn ha hp hc
  · have ho := payloadRead_overrun ⟨false, order⟩ socket h hs hn
    rw [ho.1, ho.2]
    rfl
  · have he := payloadRead_tooLarge ⟨false, order⟩ socket h hs (not_lt.mp hn) ha hp
    rw [he.out, he.session]
    rfl
  · have he := payloadRead_unbuilt ⟨false, order⟩ socket h hv ha (not_le.mp hp) (Or.inl hc)
    rw [he.out, he.session]
    rfl
  · have he := payloadRead_built ⟨false, order⟩ socket h hv ha (not_le.mp hp) (not_lt.mp hc)
      (fun hb => by cases hb)
    rw [he.out, he.session]
    rfl
  · rcases (offer ⟨false, order⟩ packetSize events {}).accepted_or with ha' | hr | ha'
    · exact absurd ha' hna
    · have he := payloadRead_refused ⟨false, order⟩ socket h hs (not_lt.mp hn) hr
      rw [he.out, he.session]
      rfl
    · exact absurd ha' ha

variable {events : List RecvEvent} {ses : Session}

/-- **What a single-shot read shows** once something of the length field came. -/
theorem readSingleShot_observed (ses : Session) (h2 : 2 ≤ n)
    (ha : (offer ⟨false, order⟩ sizeBytes events {}).accepted) (buf : Buffer n) :
    let header := offer ⟨false, order⟩ sizeBytes events {}
    let a := overwrite buf.arr 0 header.bytes
    let packetSize := lengthOf ⟨false, order⟩ a
    let payload := payloadOf order packetSize header.rest
    observed (readSingleShot ⟨false, order⟩ socket) events ses buf =
      shown (afterPayload socket (verdict n packetSize payload) ses
        (front socket packetSize (overwrite a 0 payload.bytes))) := by
  intro header a packetSize payload
  have hle := (offer_length_le ⟨false, order⟩ sizeBytes events {}).trans h2
  obtain ⟨s1, hrun, hh1, hq, -⟩ := readSingleShot_headed (s := ⟨⟨buf, events, []⟩, ses⟩)
    ⟨false, order⟩ socket hle ha h2
  have hp := payloadRead_verdict order socket hh1 (lengthOf_val ⟨false, order⟩ a)
  rw [hq] at hp
  rw [observed, hrun, ← shown_headed socket _ ⟨false, order⟩ a]
  exact congrArg shown hp

theorem readSingleShot_observed_closed (h : 2 ≤ n → ¬(offer ⟨false, order⟩ sizeBytes events {}).accepted)
    (buf buf' : Buffer n) : observed (readSingleShot ⟨false, order⟩ socket) events ses buf =
      observed (readSingleShot ⟨false, order⟩ socket) events ses buf' := by
  have hsame : ∀ buf : Buffer n, observed (readSingleShot ⟨false, order⟩ socket) events ses buf =
      (if n < (offer ⟨false, order⟩ sizeBytes events {}).bytes.length ∨
          (offer ⟨false, order⟩ sizeBytes events {}).accepted then .error .outOfBounds
        else .ok { terminate := true }, ses.readList, ses.dispatched) := by
    intro buf
    by_cases hn : n < (offer ⟨false, order⟩ sizeBytes events {}).bytes.length
    · have ho := readSingleShot_overrun (s := ⟨⟨buf, events, []⟩, ses⟩) ⟨false, order⟩ socket hn
      rw [if_pos (Or.inl hn), observed, ho.1, ho.2]
    rcases (offer ⟨false, order⟩ sizeBytes events {}).accepted_or with ha | hr | ha
    · exact absurd ha (offer_off rfl _ _ _)
    · have he := readSingleShot_refused (s := ⟨⟨buf, events, []⟩, ses⟩) ⟨false, order⟩ socket
        (not_lt.mp hn) hr
      rw [if_neg (not_or.mpr ⟨hn, fun ha => Offer.not_refused ha hr⟩), observed, he.out, he.session]
      rfl
    · have he := readSingleShot_tiny (s := ⟨⟨buf, events, []⟩, ses⟩) ⟨false, order⟩ socket
        (not_lt.mp hn) ha (not_le.mp fun h2 => h h2 ha)
      rw [if_pos (Or.inr ha), observed, he.out, he.session]
      rfl
  rw [hsame, hsame]

/-- Half a length field, and the byte that lies behind it. -/
theorem take_overwrite_half {l : List Byte} (h : 2 ≤ l.length) (x : Byte) :
    ∃ y, (overwrite l 0 [x]).take sizeBytes = [x, y] ∧ l[1]? = some y := by
  rcases l with _ | ⟨_, _ | ⟨y, l⟩⟩
  · simp at h
  · simp at h
  · exact ⟨y, rfl, rfl⟩

/-- A buffer with `y` behind its first byte, and `z` everywhere else. -/
def marked (buf : Buffer n) (y z : Byte) : Buffer n :=
  { buf with arr := (List.replicate n z).set 1 y, length_arr := by simp }

theorem getElem?_marked (buf : Buffer n) (y z : Byte) {j : ℕ} (hj : 2 ≤ j) (hn : j < n) :
    (marked buf y z).arr[j]? = some z := by
  have hne : 1 ≠ j := by omega
  dsimp only [marked]
  rw [List.getElem?_set_ne hne, List.getElem?_replicate, if_pos hn]

theorem getElem?_marked_one (buf : Buffer n) (y z : Byte) (hn : 2 ≤ n) :
    (marked buf y z).arr[1]? = some y := by
  dsimp only [marked]
  rw [List.getElem?_set_self (by simp; omega)]

/-- A packet of which not all bytes came shows what lies behind those that did. -/
theorem shown_differs (ses : Session) {bs cs : List Byte} {packetSize j : ℕ} {l l' : List Byte}
    (hb : bs.length ≤ j) (hc : cs.length ≤ j) (hj : j < taken packetSize) (hl : l[j]? ≠ l'[j]?) :
    shown (afterPayload socket .built ses (front socket packetSize (overwrite (overwrite l 0 bs) 0 cs))) ≠
      shown (afterPayload socket .built ses
        (front socket packetSize (overwrite (overwrite l' 0 bs) 0 cs))) := by
  intro h
  have hd := congrArg (fun r => r.2.2) h
  simp only [shown, afterPayload, Session.dispatched_dispatch, List.append_cancel_left_eq,
    List.cons.injEq, and_true] at hd
  have ht := congrArg (fun p : NetworkPacket => (p.command ++ p.data)[j]?) hd
  simp only [front_bytes, List.getElem?_take_of_lt hj, getElem?_overwrite hc, getElem?_overwrite hb] at ht
  exact hl ht

theorem shown_unbuilt {v : Verdict} (hv : v ≠ .built) {packet packet' : NetworkPacket} :
    shown (afterPayload socket v ses packet) = shown (afterPayload socket v ses packet') := by
  cases v <;> first | rfl | exact absurd rfl hv

theorem verdict_built {packetSize : ℕ} {payload : Offer}
    (h : verdict n packetSize payload = .built) :
    payload.accepted ∧ packetSize < n ∧ commandSize ≤ n := by
  unfold verdict at h
  split_ifs at h with h1 h2 h3 h4
  exact ⟨h2, by omega, by omega⟩

/-- An isolated read builds no packet of which not all bytes came. -/
theorem Isolated.whole {buf : Buffer n} (hi : Isolated (readSingleShot ⟨false, order⟩ socket) events ses buf)
    (h2 : 2 ≤ n) (ha : (offer ⟨false, order⟩ sizeBytes events {}).accepted) (y : Byte)
    {packetSize : ℕ} (hp : ∀ z, packetSize = lengthOf ⟨false, order⟩
      (overwrite (marked buf y z).arr 0 (offer ⟨false, order⟩ sizeBytes events {}).bytes))
    (hv : verdict n packetSize (payloadOf order packetSize
      (offer ⟨false, order⟩ sizeBytes events {}).rest) = .built) :
    taken packetSize ≤ (payloadOf order packetSize
      (offer ⟨false, order⟩ sizeBytes events {}).rest).bytes.length := by
  by_contra hlt
  obtain ⟨-, hpn, hcn⟩ := verdict_built hv
  have htn : taken packetSize ≤ n := max_le hcn hpn.le
  have h4 : commandSize ≤ taken packetSize := le_max_left _ _
  have hle := offer_length_le ⟨false, order⟩ sizeBytes events {}
  have hobs : ∀ z, observed (readSingleShot ⟨false, order⟩ socket) events ses (marked buf y z) =
      shown (afterPayload socket .built ses (front socket packetSize (overwrite (overwrite
        (marked buf y z).arr 0 (offer ⟨false, order⟩ sizeBytes events {}).bytes) 0
        (payloadOf order packetSize (offer ⟨false, order⟩ sizeBytes events {}).rest).bytes))) := by
    intro z
    have ho := readSingleShot_observed order socket ses h2 ha (marked buf y z)
    dsimp only at ho
    rw [← hp z, hv] at ho
    exact ho
  -- the first byte behind the header and behind what came of the payload
  obtain ⟨j, hj2, hjp, hjlt⟩ : ∃ j, 2 ≤ j ∧ (payloadOf order packetSize
      (offer ⟨false, order⟩ sizeBytes events {}).rest).bytes.length ≤ j ∧ j < taken packetSize :=
    ⟨_, le_max_left _ _, le_max_right _ _, max_lt (lt_of_lt_of_le (by decide) h4) (not_le.mp hlt)⟩
  have hj : (marked buf y 0).arr[j]? ≠ (marked buf y 1).arr[j]? := by
    rw [getElem?_marked buf y 0 hj2 (by omega), getElem?_marked buf y 1 hj2 (by omega)]
    simp
  apply shown_differs socket ses (hle.trans hj2) hjp hjlt hj
  rw [← hobs 0, ← hobs 1, hi (marked buf y 0), hi (marked buf y 1)]

theorem lengthOf_half {l : List Byte} {x y : Byte} (hl : 2 ≤ l.length) (hy : l[1]? = some y) :
    lengthOf ⟨false, order⟩ (overwrite l 0 [x]) = pairLength order x y := by
  obtain ⟨y', ht, hy'⟩ := take_overwrite_half hl x
  rw [hy] at hy'
  cases hy'
  exact lengthOf_congr _ (by rw [ht]; rfl)

theorem length_front {packetSize : ℕ} {a : List Byte} (h : taken packetSize ≤ a.length) :
    ((front socket packetSize a).command ++ (front socket packetSize a).data).length =
      taken packetSize := by
  rw [front_bytes, List.length_take, Nat.min_eq_left h]

/-- Behind half a length field an isolated read builds nothing, as another second byte
would make it build a packet of another size. -/
theorem Isolated.half {buf : Buffer n} (hi : Isolated (readSingleShot ⟨false, order⟩ socket) events ses buf)
    (h2 : 2 ≤ n) (ha : (offer ⟨false, order⟩ sizeBytes events {}).accepted) {x : Byte}
    (hb : (offer ⟨false, order⟩ sizeBytes events {}).bytes = [x]) :
    ∃ v ≠ Verdict.built, ∀ y, verdict n (pairLength order x y) (payloadOf order (pairLength order x y)
      (offer ⟨false, order⟩ sizeBytes events {}).rest) = v := by
  set rest := (offer ⟨false, order⟩ sizeBytes events {}).rest with hrest
  have hlen : ∀ y z, lengthOf ⟨false, order⟩ (overwrite (marked buf y z).arr 0 [x]) =
      pairLength order x y := by
    intro y z
    exact lengthOf_half order (by rw [(marked buf y z).length_arr]; exact h2)
      (getElem?_marked_one buf y z h2)
  have hobs : ∀ y, observed (readSingleShot ⟨false, order⟩ socket) events ses buf =
      shown (afterPayload socket (verdict n (pairLength order x y)
        (payloadOf order (pairLength order x y) rest)) ses (front socket (pairLength order x y)
          (overwrite (overwrite (marked buf y 0).arr 0 [x]) 0
            (payloadOf order (pairLength order x y) rest).bytes))) := by
    intro y
    have ho := readSingleShot_observed order socket ses h2 ha (marked buf y 0)
    dsimp only at ho
    rw [hb, hlen y 0] at ho
    rw [← hi (marked buf y 0), ho]
  refine ⟨verdict n (pairLength order x 0) (payloadOf order (pairLength order x 0) rest), ?_, ?_⟩
  · intro hv0
    have hv1 : verdict n (pairLength order x 1) (payloadOf order (pairLength order x 1) rest) = .built := by
      rw [← hv0]
      exact afterPayload_inj socket ((hobs 1).symm.trans (hobs 0))
    have hsize : ∀ y, verdict n (pairLength order x y) (payloadOf order (pairLength order x y) rest) =
        .built → taken (pairLength order x y) = pairLength order x y ∧ taken (pairLength order x y) ≤ n := by
      intro y hv
      have hw := hi.whole order socket h2 ha y (fun z => by rw [hb, hlen y z]) hv
      have hle := offer_length_le ⟨false, order⟩ (pairLength order x y) rest {}
      obtain ⟨-, hpn, hcn⟩ := verdict_built hv
      exact ⟨le_antisymm (hw.trans hle) (le_max_right _ _), max_le hcn hpn.le⟩
    have hd := congrArg (fun r => r.2.2) ((hobs 0).symm.trans (hobs 1))
    rw [hv0, hv1] at hd
    simp only [shown, afterPayload, Session.dispatched_dispatch, List.append_cancel_left_eq,
      List.cons.injEq, and_true] at hd
    have hl := congrArg (fun p : NetworkPacket => (p.command ++ p.data).length) hd
    have hfit : ∀ y, verdict n (pairLength order x y) (payloadOf order (pairLength order x y) rest) =
        .built → taken (pairLength order x y) ≤ (overwrite (overwrite (marked buf y 0).arr 0 [x]) 0
          (payloadOf order (pairLength order x y) rest).bytes).length := by
      intro y hv
      have hle := offer_length_le ⟨false, order⟩ (pairLength order x y) rest {}
      have ht := hsize y hv
      have h1 : (overwrite (marked buf y 0).arr 0 [x]).length = n := by
        rw [length_overwrite (by rw [(marked buf y 0).length_arr, List.length_singleton]; omega),
          (marked buf y 0).length_arr]
      rw [length_overwrite (by rw [h1, payloadOf]; omega), h1]
      exact ht.2
    rw [length_front socket (hfit 0 hv0), length_front socket (hfit 1 hv1), (hsize 0 hv0).1,
      (hsize 1 hv1).1] at hl
    exact pairLength_ne order x hl
  · intro y
    exact afterPayload_inj socket ((hobs y).symm.trans (hobs 0))

/-- **The single-shot read** shows nothing of an earlier client exactly when what it takes
for whole is whole. -/
theorem readSingleShot_isolated (buf : Buffer n) :
    Isolated (readSingleShot ⟨false, order⟩ socket) events ses buf ↔ SingleShotWhole order n events := by
  have hle := offer_length_le ⟨false, order⟩ sizeBytes events {}
  constructor
  · intro hi h2 ha
    refine ⟨fun hb hv => ?_, fun x hb => hi.half order socket h2 ha hb⟩
    refine hi.whole order socket h2 ha 0 (fun z => ?_) hv
    exact (lengthOf_congr _ (take_overwrite hb.ge)).symm
  · intro hw buf'
    by_cases hopen : 2 ≤ n ∧ (offer ⟨false, order⟩ sizeBytes events {}).accepted
    swap
    · exact readSingleShot_observed_closed order socket (fun h2 ha => hopen ⟨h2, ha⟩) buf' buf
    obtain ⟨h2, ha⟩ := hopen
    obtain ⟨hwhole, hhalf⟩ := hw h2 ha
    have hpos := List.length_pos_iff.mpr ha.1
    rw [readSingleShot_observed order socket ses h2 ha buf',
      readSingleShot_observed order socket ses h2 ha buf]
    by_cases hb : (offer ⟨false, order⟩ sizeBytes events {}).bytes.length = sizeBytes
    · have hlen : ∀ l, lengthOf ⟨false, order⟩
          (overwrite l 0 (offer ⟨false, order⟩ sizeBytes events {}).bytes) =
            lengthOf ⟨false, order⟩ (offer ⟨false, order⟩ sizeBytes events {}).bytes :=
        fun l => lengthOf_congr _ (take_overwrite hb.ge)
      rw [hlen, hlen]
      by_cases hv : verdict n (lengthOf ⟨false, order⟩ (offer ⟨false, order⟩ sizeBytes events {}).bytes)
          (payloadOf order (lengthOf ⟨false, order⟩ (offer ⟨false, order⟩ sizeBytes events {}).bytes)
            (offer ⟨false, order⟩ sizeBytes events {}).rest) = .built
      · rw [front_congr ((take_overwrite (hwhole hb hv)).trans (take_overwrite (hwhole hb hv)).symm)]
      · exact shown_unbuilt socket hv
    · obtain ⟨x, hx⟩ := List.length_eq_one_iff.mp (show
        (offer ⟨false, order⟩ sizeBytes events {}).bytes.length = 1 by simp only [sizeBytes] at *; omega)
      obtain ⟨v, hne, hv⟩ := hhalf x hx
      obtain ⟨y', -, hy'⟩ := take_overwrite_half (l := buf'.arr) (by rw [buf'.length_arr]; exact h2) x
      obtain ⟨y, -, hy⟩ := take_overwrite_half (l := buf.arr) (by rw [buf.length_arr]; exact h2) x
      rw [hx, lengthOf_half order (by rw [buf'.length_arr]; exact h2) hy',
        lengthOf_half order (by rw [buf.length_arr]; exact h2) hy, hv, hv]
      exact shown_unbuilt socket hne

/-- **No read shows another client's bytes** while it only goes on from what came whole. For
the single-shot read that is also needed. -/
theorem readForSingleSocket_isolated (buf : Buffer n) :
    (Isolated (readSingleShot ⟨false, order⟩ socket) events ses buf ↔ SingleShotWhole order n events) ∧
    (Served n ⟨false, order⟩ socket events ses →
      Isolated (readMultiShot ⟨false, order⟩ socket) events ses buf) := by
  refine ⟨readSingleShot_isolated order socket buf, ?_⟩
  rintro ⟨out, events', ses', h⟩ buf'
  have hends : ∀ buf : Buffer n, Ends (readMultiShot ⟨false, order⟩ socket) ⟨⟨buf, events, []⟩, ses⟩
      out events' ses' := fun buf =>
    readMultiShot_reads (s := ⟨⟨buf, events, []⟩, ses⟩) ⟨false, order⟩ socket h
  rw [observed, observed, (hends buf').out, (hends buf).out, (hends buf').session, (hends buf).session]

end Isolation

/-- A whole packet for the single-shot read, and for the multi-shot read two that come at once. -/
theorem readForSingleSocket_isolated_whole :
    Isolated (readSingleShot ⟨false, .little⟩ 5) [.arrive (0 :: 6 :: Commands.send ++ [104, 105])]
        (sampleState []).session sampleBuffer ∧
      Isolated (readMultiShot ⟨false, .little⟩ 5)
        [.arrive (0 :: 6 :: Commands.send ++ [104, 105] ++ 0 :: 4 :: Commands.send)]
        (sampleState []).session sampleBuffer := by
  refine ⟨(readForSingleSocket_isolated .little 5 sampleBuffer).1.mpr fun _ _ => ⟨fun _ _ => ?_, fun x hx => ?_⟩,
    (readForSingleSocket_isolated .little 5 sampleBuffer).2 ?_⟩
  · decide
  · have htwo : (offer ⟨false, .little⟩ sizeBytes
        [.arrive (0 :: 6 :: Commands.send ++ [104, 105])] {}).bytes.length = 2 := by decide
    rw [hx] at htwo
    cases htwo
  · exact ⟨_, _, _, .next (.more (by decide) (by decide) (by decide)) (by decide)
      ⟨by decide, by decide, nofun⟩ (by decide)
      (.last (.enough (by decide)) (by decide) ⟨by decide, by decide, nofun⟩ (by decide))⟩

/-- A peer that announces eight bytes and closes after four: its packet carries what the
buffer held before. -/
theorem readForSingleSocket_shows :
    ¬∀ (n : ℕ) (order : ByteOrder) (socket : ℤ) (events : List RecvEvent) (ses : Session)
      (buf : Buffer n), Isolated (readSingleShot ⟨false, order⟩ socket) events ses buf ∧
        Isolated (readMultiShot ⟨false, order⟩ socket) events ses buf := by
  intro h
  have hi := (h 106 .little 5 [.arrive (0 :: 8 :: Commands.send)] (sampleState []).session sampleBuffer).1
    (.filled 1 (by decide) (by decide))
  exact absurd (congrArg (fun r => r.2.1) hi) (by decide)

end PollServer
