import PollServer.Lib.Relay
import PollServer.Model.Program
import PollServer.Serve.Rebalance
import PollServer.Serve.Silence
import PollServer.Write.Responses

/-! The threads of the sample server in any order: a turn of one of them is an operation of the
server, and so what holds of the operations holds of the program. -/

namespace PollServer

open Lib NetworkPacket ClientInfos

namespace Server

variable {k n : ℕ} {s s' : Server k} {b : Build} {shot : Shot}
  {callback : NetworkPacket → ClientInfo → NetworkPacket} {time : ℤ} {op : Op k n}
  {es : List (Event k)} {i j : Fin k} {c c' : ClientInfo}

section Descends

/-- What a client has become: it is flagged only if it was and is not heard of, or if it is warned. -/
structure Descends (es : List (Event k)) (c c' : ClientInfo) : Prop where
  socket : c'.socket = c.socket
  weight : c'.deadlineMaxCount = c.deadlineMaxCount
  terminateNow : c'.terminateNow = c.terminateNow
  flag : c'.terminateOnNextCycle = true →
    (c.terminateOnNextCycle = true ∧ ∀ e ∈ es, ¬EndsStrike c.socket e) ∨ .warned c.socket ∈ es

theorem Descends.same (h : ∀ e ∈ es, ¬EndsStrike c.socket e) : Descends es c c :=
  ⟨rfl, rfl, rfl, fun hf => Or.inl ⟨hf, h⟩⟩

theorem descends_setBoth {r : ServerLearnProtocol × Priority}
    (hes : ∀ j ≠ i, ∀ c ∈ (s.protocols j).clients.entries, ∀ e ∈ es, ¬EndsStrike c.socket e)
    (hr : ∀ c' ∈ r.1.clients.entries, ∃ c ∈ (s.protocols i).clients.entries, Descends es c c')
    (hc' : c' ∈ ((s.setBoth i r).protocols j).clients.entries) :
    ∃ c ∈ (s.protocols j).clients.entries, Descends es c c' := by
  by_cases hj : j = i
  · subst hj
    rw [setBoth_same] at hc'
    exact hr c' hc'
  · rw [setBoth_other _ _ hj] at hc'
    exact ⟨c', hc', .same (hes j hj c' hc')⟩

theorem After.descends {v : Polled n} (h : ClientInfo.After v.dispatched c c')
    (hes : ∀ e ∈ es, ∃ socket time, e = Event.updated i socket time) :
    Descends (v.dispatched.map .received ++ es) c c' where
  socket := h.socket
  weight := h.weight
  terminateNow := h.terminateNow
  flag hf := by
    rw [h.terminateOnNextCycle, Bool.and_eq_true, List.all_eq_true] at hf
    refine Or.inl ⟨hf.1, fun e he hends => ?_⟩
    rcases List.mem_append.mp he with he | he
    · obtain ⟨q, hq, rfl⟩ := List.mem_map.mp he
      obtain hacc | ⟨q', heq, hclears⟩ := hends
      · cases hacc
      · cases heq
        exact absurd hclears (of_decide_eq_true (hf.2 q hq))
    · obtain ⟨socket, time, rfl⟩ := hes e he
      exact not_endsStrike_updated _ _ _ _ hends

/-- **Where a client of a protocol comes from.** -/
theorem exec_descends (ha : s.Alone) (hf : s.Fresh op)
    (h : s.exec b shot callback time op = .ok (es, s'))
    (hc' : c' ∈ (s'.protocols j).clients.entries) :
    (∃ c ∈ (s.protocols j).clients.entries, Descends es c c') ∨
    (∃ i socket, op = .move i j socket ∧ (s.protocols i).clientInfos.oldest socket = some c' ∧
      es = [.updated j c'.socket time]) ∨
    op = .add j c' := by
  cases op with
  | add i c =>
    cases h
    have hold : ∀ {j c'}, c' ∈ (s.protocols j).clients.entries →
        ∀ e ∈ [Event.accepted c.socket, .updated i c.socket time], ¬EndsStrike c'.socket e := by
      intro j c' hmem e he
      have hne : c.socket ≠ c'.socket := fun heq =>
        hf j (show c.socket ∈ _ from heq ▸ Keyed.mem_of_entry _ hmem)
      simp only [List.mem_cons, List.not_mem_nil, or_false] at he
      rcases he with rfl | rfl
      · simpa [EndsStrike] using hne
      · exact not_endsStrike_updated _ _ _ _
    by_cases hj : j = i
    · subst hj
      rw [Server.add, setBoth_same] at hc'
      rcases Keyed.mem_entries_insert _ hc' with rfl | hmem
      · exact Or.inr (Or.inr rfl)
      · exact Or.inl ⟨c', hmem, .same (hold hmem)⟩
    · rw [Server.add, setBoth_other _ _ hj] at hc'
      exact Or.inl ⟨c', hc', .same (hold hc')⟩
  | pollRead i buffer events =>
    obtain ⟨p, v, hspec, rfl, rfl⟩ := exec_pollRead h
    have hupdates : ∀ e ∈ v.socketsWeReadAt.map (Event.updated i · time),
        ∃ socket time, e = .updated i socket time := by
      intro e he
      obtain ⟨socket, -, rfl⟩ := List.mem_map.mp he
      exact ⟨socket, time, rfl⟩
    refine Or.inl (descends_setBoth (fun j hj c hc e he hends => ?_) (fun c' hc' => ?_) hc')
    · rcases List.mem_append.mp he with he | he
      · obtain ⟨q, hq, rfl⟩ := List.mem_map.mp he
        obtain hacc | ⟨q', heq, hsocket, -⟩ := hends
        · cases hacc
        · cases heq
          have hknown := hspec.known q hq
          rw [hsocket] at hknown
          exact hj (ha _ _ _ (Keyed.mem_of_entry _ hc) hknown)
      · obtain ⟨socket, time, rfl⟩ := hupdates e he
        exact not_endsStrike_updated _ _ _ _ hends
    · obtain ⟨c, hc, hafter⟩ := hspec.clients.back hc'
      exact ⟨c, hc, After.descends hafter hupdates⟩
  | closeSocketConnections i sockets =>
    cases h
    refine Or.inl (descends_setBoth (by simp) (fun c' hc' => ⟨c', ?_, .same (by simp)⟩) hc')
    rw [ServerLearnProtocol.clients, closeSocketConnections_clientInfos, Keyed.mem_entries_eraseAll] at hc'
    exact hc'.1
  | removeOldest i socket =>
    cases h
    refine Or.inl (descends_setBoth (by simp) (fun c' hc' => ⟨c', ?_, .same (by simp)⟩) hc')
    cases ho : (s.protocols i).clientInfos.oldest socket with
    | none => rwa [removeOldest_none _ ho] at hc'
    | some c =>
      rw [removeOldest_some _ ho] at hc'
      exact ((Keyed.mem_entries_erase _).mp hc').1
  | move i l socket =>
    obtain ⟨rfl, rfl⟩ | ⟨c, hc, rfl, rfl⟩ := exec_move h
    · exact Or.inl ⟨c', hc', .same (by simp)⟩
    have hquiet : ∀ socket, ∀ e ∈ [Event.updated l c.socket time], ¬EndsStrike socket e := by
      simp [not_endsStrike_updated]
    have hgive : ∀ {j}, c' ∈ ((s.removeOldest i socket time).2.protocols j).clients.entries →
        ∃ c0 ∈ (s.protocols j).clients.entries, Descends [Event.updated l c.socket time] c0 c' := by
      intro j hmem
      refine descends_setBoth (fun _ _ c _ => hquiet c.socket) (fun c' hc' => ⟨c', ?_, .same (hquiet _)⟩) hmem
      rw [removeOldest_some _ hc] at hc'
      exact ((Keyed.mem_entries_erase _).mp hc').1
    rw [Server.move, removeOldest_eq hc] at hc'
    by_cases hj : j = l
    · subst hj
      rw [Server.add, setBoth_same] at hc'
      rcases Keyed.mem_entries_insert _ hc' with rfl | hmem
      · exact Or.inr (Or.inl ⟨i, socket, rfl, hc, rfl⟩)
      · exact Or.inl (hgive hmem)
    · rw [Server.add, setBoth_other _ _ hj] at hc'
      exact Or.inl (hgive hc')
  | execHealthCheck i =>
    obtain ⟨_, p, hspec, rfl, rfl⟩ := exec_execHealthCheck h
    have hquiet : ∀ socket, ∀ e ∈ ((s.protocols i).warned time).map (Event.warned (k := k)),
        ¬EndsStrike socket e := by
      intro socket e he
      obtain ⟨socket', -, rfl⟩ := List.mem_map.mp he
      exact not_endsStrike_warned _ _
    refine Or.inl (descends_setBoth (fun _ _ c _ => hquiet c.socket) (fun c' hc' => ?_) hc')
    obtain ⟨c, hc, hwarned⟩ := hspec.clients.back hc'
    refine ⟨c, hc, hwarned.socket, hwarned.weight, hwarned.terminateNow, fun hflag => ?_⟩
    rw [hwarned.terminateOnNextCycle, Bool.or_eq_true, decide_eq_true_eq] at hflag
    exact hflag.imp (fun hflag => ⟨hflag, hquiet _⟩) List.mem_map_of_mem
  | execute i =>
    obtain ⟨p, hp, rfl, rfl⟩ := exec_execute h
    exact Or.inl (descends_setBoth (by simp) (fun c' hc' => ⟨c', hp.clients ▸ hc', .same (by simp)⟩) hc')
  | write i sends =>
    obtain ⟨p, hp, rfl, rfl⟩ := exec_write h
    exact Or.inl (descends_setBoth (by simp) (fun c' hc' => ⟨c', hp.clients ▸ hc', .same (by simp)⟩) hc')

end Descends

section Numbered

/-- The clients have descriptors, and the weight that `main` gives them. -/
structure Numbered (s : Server k) : Prop where
  alone : s.Alone
  client : ∀ i, ∀ c ∈ (s.protocols i).clients.entries,
    c.deadlineMaxCount = deadlineMaxCountDefault ∧ 0 ≤ c.socket ∧ c.socket < 2 ^ 31

theorem Numbered.length_le (h : s.Numbered) :
    ∑ i, (s.protocols i).clients.entries.length ≤ 2 ^ 31 := by
  have hle : ∑ i, (s.protocols i).clients.entries.length ≤ (Finset.Ico (0 : ℤ) (2 ^ 31)).card :=
    Keyed.sum_length_le h.alone fun i socket hmem => by
      obtain ⟨c, hc, rfl⟩ := (Keyed.mem_iff _).mp hmem
      exact Finset.mem_Ico.mpr (h.client i c hc).2
  simpa using hle

theorem Numbered.weight_lt (h : s.Numbered) : s.weight < 2 ^ 64 := by
  have hweight : ∀ i, (s.protocols i).clientInfos.weight =
      (s.protocols i).clients.entries.length * deadlineMaxCountDefault := by
    intro i
    have heq : (s.protocols i).clients.entries.map ClientInfo.deadlineMaxCount =
        (s.protocols i).clients.entries.map fun _ => deadlineMaxCountDefault :=
      List.map_congr_left fun c hc => (h.client i c hc).1
    rw [ClientInfos.weight, Keyed.total, ← ServerLearnProtocol.clients, heq]
    simp
  have hle := Nat.mul_le_mul_right deadlineMaxCountDefault h.length_le
  rw [Finset.sum_mul] at hle
  simp only [Server.weight, hweight]
  exact hle.trans_lt (by decide)

/-- What `main` adds is a new client of a descriptor. -/
def Opened : Op k n → Prop
  | .add _ clientInfo => 0 ≤ clientInfo.socket ∧ clientInfo.socket < 2 ^ 31 ∧
      ∃ now, clientInfo = .make clientInfo.socket deadlineMaxCountDefault now
  | _ => True

theorem Opened.new (h : Opened op) : New op := by
  cases op with
  | add i c =>
    obtain ⟨-, -, now, heq⟩ := h
    exact ⟨_, _, now, heq⟩
  | _ => trivial

theorem Opened.weight (h : Opened (.add i c : Op k n)) : c.deadlineMaxCount = deadlineMaxCountDefault := by
  obtain ⟨-, -, now, heq⟩ := h
  rw [heq]
  rfl

theorem Numbered.exec (h : s.Numbered) (hf : s.Fresh op) (ho : Opened op)
    (hexec : s.exec b shot callback time op = .ok (es, s')) : s'.Numbered := by
  refine ⟨h.alone.exec b shot callback hf hexec, fun j c' hc' => ?_⟩
  obtain ⟨c, hc, hd⟩ | ⟨i, socket, -, hold, -⟩ | rfl := exec_descends h.alone hf hexec hc'
  · rw [hd.socket, hd.weight]
    exact h.client j c hc
  · exact h.client i c' (mem_of_oldest hold)
  · exact ⟨ho.weight, ho.1, ho.2.1⟩

end Numbered

section Uniform

theorem keeps_setBoth {α : Type} (f : ServerLearnProtocol → α) {r : ServerLearnProtocol × Priority}
    (hr : f r.1 = f (s.protocols i)) (j : Fin k) : f ((s.setBoth i r).protocols j) = f (s.protocols j) := by
  by_cases hj : j = i
  · rw [hj, setBoth_same, hr]
  · rw [setBoth_other _ _ hj]

theorem exec_places (h : s.exec b shot callback time op = .ok (es, s')) :
    (∀ j, (s'.protocols j).balancerIndex = (s.protocols j).balancerIndex) ∧
      s'.balancer.sizes.length = s.balancer.sizes.length := by
  have hadd : ∀ (s : Server k) i c, (∀ j, ((s.add i c time).protocols j).balancerIndex =
      (s.protocols j).balancerIndex) ∧ (s.add i c time).balancer.sizes.length = s.balancer.sizes.length :=
    fun s i c => ⟨keeps_setBoth ServerLearnProtocol.balancerIndex rfl, Priority.length_incPriority _ _ _⟩
  obtain ⟨i, c, -, rfl⟩ | ⟨i, j, socket, c, -, hc, rfl⟩ | rfl | ⟨i, r, rfl, hkept⟩ :=
    exec_cases b shot callback h
  · exact hadd s i c
  · have hgive := kept_giveAway s i socket time
    obtain ⟨hindex, hlength⟩ := hadd (s.removeOldest i socket time).2 j c
    rw [Server.move, removeOldest_eq hc]
    exact ⟨fun l => (hindex l).trans (keeps_setBoth ServerLearnProtocol.balancerIndex hgive.index l),
      hlength.trans hgive.length⟩
  · exact ⟨fun _ => rfl, rfl⟩
  · exact ⟨keeps_setBoth ServerLearnProtocol.balancerIndex hkept.index, hkept.length⟩

theorem exec_ranked (hr : s.balancer.Ranked) (h : s.exec b shot callback time op = .ok (es, s')) :
    s'.balancer.Ranked := by
  have hgive : ∀ i socket, (s.removeOldest i socket time).2.balancer.Ranked := by
    intro i socket
    rw [removeOldest]
    cases ho : (s.protocols i).clientInfos.oldest socket with
    | none =>
      rw [removeOldest_none _ ho]
      exact hr.decPriority _ _
    | some c =>
      rw [removeOldest_some _ ho]
      exact hr.decPriority _ _
  cases op with
  | add i c =>
    cases h
    exact hr.incPriority _ _
  | pollRead i buffer events =>
    obtain ⟨p, v, -, rfl, -⟩ := exec_pollRead h
    exact hr
  | closeSocketConnections i sockets =>
    cases h
    obtain ⟨timestamps, heq⟩ := closeSocketConnections_eq (s.protocols i) s.balancer sockets
    rw [heq]
    exact close_ranked hr _ _ _
  | removeOldest i socket =>
    cases h
    exact hgive i socket
  | move i j socket =>
    obtain ⟨rfl, -⟩ | ⟨c, hc, rfl, -⟩ := exec_move h
    · exact hr
    · exact (hgive i socket).incPriority _ _
  | execHealthCheck i =>
    obtain ⟨_, p, -, rfl, -⟩ := exec_execHealthCheck h
    exact hr
  | execute i =>
    obtain ⟨p, -, rfl, -⟩ := exec_execute h
    exact hr
  | write i sends =>
    obtain ⟨p, -, rfl, -⟩ := exec_write h
    exact hr

/-- **Every operation keeps a server of clients with the default weight uniform.** -/
theorem Uniform.exec (h : s.Uniform deadlineMaxCountDefault) (hn : s.Numbered) (hf : s.Fresh op)
    (ho : Opened op) (hexec : s.exec b shot callback time op = .ok (es, s')) :
    s'.Uniform deadlineMaxCountDefault := by
  have hn' := hn.exec hf ho hexec
  obtain ⟨hindex, hlength⟩ := exec_places hexec
  refine ⟨h.inStep.exec b shot callback hf hexec h.room hn'.weight_lt, hn'.weight_lt,
    fun j => (hindex j).trans (h.index j), hlength.trans h.length, exec_ranked h.ranked hexec,
    fun j c hc => ?_⟩
  obtain ⟨hweight, h0, -⟩ := hn'.client j c hc
  exact ⟨hweight, by omega⟩

end Uniform

end Server

namespace Happening

variable {k : ℕ}

def event? : Happening k → Option (Event k)
  | .event e => some e
  | _ => none

/-- What was read at `i` for `execute`. -/
def readAt (i : Fin k) : Happening k → List NetworkPacket
  | .read j packets => if j = i then packets.filter (IsSend ·) else []
  | _ => []

/-- What `execute` has taken at `i`. -/
def executedAt (i : Fin k) : Happening k → List NetworkPacket
  | .executed j packetsToRead _ => if j = i then packetsToRead else []
  | _ => []

end Happening

namespace Program

open Sections (Threading)
open Server (Opened)

variable {k n : ℕ} {th : Threading} {b : Build} {shot : Shot}
  {callback : NetworkPacket → ClientInfo → NetworkPacket} {time : ℤ} {w w' : Program k n}
  {hs : List (Happening k)}

/-- The events of a server's history. -/
def events (hs : List (Happening k)) : List (Event k) := hs.filterMap Happening.event?

theorem events_append (hs hs' : List (Happening k)) : events (hs ++ hs') = events hs ++ events hs' :=
  List.filterMap_append ..

theorem events_map {α : Type} (f : α → Event k) (l : List α) :
    events (l.map fun a => .event (f a)) = l.map f := by
  rw [events, List.filterMap_map, ← List.filterMap_eq_map]
  rfl

section Turns

/-- Between `accept` and `Add` the descriptor is no client's, and the index is a protocol's. -/
structure Sound (w : Program k n) : Prop where
  numbered : w.server.Numbered
  uniform : w.server.Uniform deadlineMaxCountDefault
  child : ∀ socket currentBalance, w.child = some (socket, currentBalance) →
    currentBalance < k ∧ 0 ≤ socket ∧ socket < 2 ^ 31 ∧ ∀ i, socket ∉ w.clients i

/-- A turn does not call the server, or calls an operation of it. A client is added only for the
child that waits. -/
inductive Calls (b : Build) (shot : Shot) (callback : NetworkPacket → ClientInfo → NetworkPacket)
    (time : ℤ) (w : Program k n) (hs : List (Happening k)) (w' : Program k n) : Prop where
  | quiet (hserver : w'.server = w.server) (hevents : events hs = [])
  | call (op : Op k n) (hf : w.server.Fresh op) (ho : Opened op)
      (hadd : ∀ i c, op = .add i c → w'.child = none) (hmove : ∀ i j socket, op = .move i j socket →
        ∃ c, (w.server.protocols i).clientInfos.oldest socket = some c ∧ .moved c.socket ∈ hs)
      (hexec : w.server.exec b shot callback time op = .ok (events hs, w'.server))

theorem switching_oldest {s : Server k} {begin prevSocket : ℤ} {maxIdx minIdx : Fin k} {c : ClientInfo}
    (h : s.switching begin prevSocket = some (maxIdx, minIdx, c)) :
    (s.protocols maxIdx).clientInfos.oldest begin = some c := by
  simp only [Server.switching] at h
  split_ifs at h with hidx hne
  cases ho : (s.protocols ⟨s.balancer.maxIndex, hidx.1⟩).clientInfos.oldest begin with
  | none => simp [ho] at h
  | some oldest =>
    simp only [ho] at h
    split_ifs at h
    cases h
    exact ho

/-- What `ExecHealthCheck` does to its protocol does not depend on the set it adds to. -/
theorem execHealthCheck_protocol (p : ServerLearnProtocol) (socketsSelected : List ℤ) (now : ℤ) :
    (p.execHealthCheck socketsSelected now).2 = (p.execHealthCheck [] now).2 := by
  simp only [ServerLearnProtocol.execHealthCheck]
  split_ifs <;> rfl

/-- **A turn of a thread is a call of the server, or none.** -/
theorem Turn.calls (h : Turn th b shot callback time w hs w') (hw : w.Sound) :
    Calls b shot callback time w hs w' := by
  have hwrite : ∀ i sends closed, ((w.server.protocols i).write b sends).2.1 = .ok closed →
      w.server.exec (n := n) b shot callback time (.write i sends) =
        .ok ([], w.server.set i ((w.server.protocols i).write b sends).2.2) := by
    intro i sends closed hok
    rw [Server.exec]
    split
    · rename_i heq
      rw [heq] at hok
      cases hok
    · rename_i heq
      rw [heq]
  cases h with
  | add socket currentBalance now hc hidx =>
    obtain ⟨-, h0, hlt, hfresh⟩ := hw.child _ _ hc
    exact .call (.add ⟨currentBalance, hidx⟩ (.make socket deadlineMaxCountDefault now)) hfresh
      ⟨h0, hlt, now, rfl⟩ (fun _ _ _ => rfl) (by simp) rfl
  | pollRead i events p v hp hr =>
    refine .call (.pollRead i (w.buffer i) events) trivial trivial (by simp) (by simp) ?_
    have hes : ∀ es : List (Event k), Program.events (es.map .event) = es := fun es =>
      (events_map id es).trans es.map_id
    rw [events_append, hes]
    simp [Server.exec, hr, Program.events, Happening.event?]
  | closeSocketConnections i sockets hp =>
    exact .call (.closeSocketConnections i sockets) trivial trivial (by simp) (by simp) rfl
  | switched i count prevSocket begin maxIdx minIdx c hp hs =>
    have hold := switching_oldest hs
    refine .call (.move maxIdx minIdx begin) trivial trivial (by simp) ?_ ?_
    · rintro i j socket heq
      cases heq
      exact ⟨c, hold, by simp⟩
    · simp only [Server.exec, hold]
      rfl
  | execute i hp => exact .call (.execute i) trivial trivial (by simp) (by simp) rfl
  | write i sends closed hp hok =>
    exact .call (.write i sends) trivial trivial (by simp) (by simp) (hwrite i sends closed hok)
  | separateExecute i hsep he => exact .call (.execute i) trivial trivial (by simp) (by simp) rfl
  | separateWrite i sends closed hsep he hok =>
    exact .call (.write i sends) trivial trivial (by simp) (by simp) (hwrite i sends closed hok)
  | check since i socketsToClose hh =>
    refine .call (.execHealthCheck i) trivial trivial (by simp) (by simp) ?_
    rw [events_map fun packet : NetworkPacket => .warned packet.socket]
    simp only [Server.exec, execHealthCheck_protocol]
  | _ => exact .quiet rfl rfl

theorem Turn.child (h : Turn th b shot callback time w hs w') :
    w'.child = w.child ∨ w'.child = none ∨
      w'.server = w.server ∧ ∃ socket, w'.child = some (socket, w.server.balancer.nextIndex) ∧
        0 ≤ socket ∧ socket < 2 ^ 31 ∧ ∀ i, socket ∉ w.clients i := by
  cases h with
  | accept socket hc h0 hlt hf => exact Or.inr (Or.inr ⟨rfl, socket, rfl, h0, hlt, hf⟩)
  | add => exact Or.inr (Or.inl rfl)
  | _ => exact Or.inl rfl

theorem Sound.turn (hw : w.Sound) (h : Turn th b shot callback time w hs w') : w'.Sound := by
  have hcalls := h.calls hw
  refine ⟨?_, ?_, fun socket currentBalance hc => ?_⟩
  · cases hcalls with
    | quiet hserver _ => exact hserver ▸ hw.numbered
    | call op hf ho _ _ hexec => exact hw.numbered.exec hf ho hexec
  · cases hcalls with
    | quiet hserver _ => exact hserver ▸ hw.uniform
    | call op hf ho _ _ hexec => exact hw.uniform.exec hw.numbered hf ho hexec
  · obtain hsame | hnone | ⟨hserver, socket', hchild, h0, hlt, hfresh⟩ := h.child
    · rw [hsame] at hc
      obtain ⟨hidx, h0, hlt, hfresh⟩ := hw.child _ _ hc
      refine ⟨hidx, h0, hlt, fun i hmem => ?_⟩
      cases hcalls with
      | quiet hserver _ =>
        rw [clients, hserver] at hmem
        exact hfresh i hmem
      | call op hf ho hadd _ hexec =>
        obtain ⟨c', hc', rfl⟩ := (Keyed.mem_iff _).mp hmem
        obtain ⟨c, hmem, hd⟩ | ⟨j, _, -, hold, -⟩ | rfl :=
          Server.exec_descends hw.numbered.alone hf hexec hc'
        · exact hfresh i (hd.socket ▸ Keyed.mem_of_entry _ hmem)
        · exact hfresh j (Keyed.mem_of_entry _ (mem_of_oldest hold))
        · rw [← hsame, hadd _ _ rfl] at hc
          cases hc
    · rw [hnone] at hc
      cases hc
    · rw [hchild, Option.some.injEq, Prod.mk.injEq] at hc
      obtain ⟨rfl, rfl⟩ := hc
      refine ⟨hw.uniform.ranked.least.range.trans_eq hw.uniform.length, h0, hlt, fun i => ?_⟩
      rw [clients, hserver]
      exact hfresh i

end Turns

section Runs

variable {clock : ℤ} {buffer : Fin k → Buffer n} {history es : List (ℤ × Happening k)}

theorem sound_start (hk : 0 < k) : (start clock buffer).Sound where
  numbered :=
    ⟨fun _ _ socket hs => absurd hs (Keyed.not_mem_empty socket), fun _ _ hc => absurd hc List.not_mem_nil⟩
  uniform := Server.uniform_start hk 10
  child := nofun

theorem Sound.step (hw : w.Sound) (h : Step th b shot callback w es w') : w'.Sound := by
  obtain ⟨time, hs, v, -, hturn, -, rfl⟩ := h
  have hv := hw.turn hturn
  exact ⟨hv.numbered, hv.uniform, hv.child⟩

theorem Run.sound (hk : 0 < k) (hr : Run (Step th b shot callback) (start clock buffer) history w) :
    w.Sound :=
  hr.invariant (I := fun _ w => w.Sound) (sound_start hk) fun _ _ _ _ hw hs => hw.step hs

/-- **The balancer knows the clients, whatever the threads do**: it counts them, it names protocols
with the fewest and with the most, and `main` never adds a client at an index out of range. -/
theorem balancer_counts (hk : 0 < k)
    (hr : Run (Step th b shot callback) (start clock buffer) history w) :
    (∀ i : Fin k, w.server.balancer.load i = (w.clients i).entries.length * deadlineMaxCountDefault) ∧
    (∃ i : Fin k, (i : ℕ) = w.server.balancer.nextIndex ∧
      ∀ j, (w.clients i).entries.length ≤ (w.clients j).entries.length) ∧
    (∃ i : Fin k, (i : ℕ) = w.server.balancer.maxIndex ∧
      ∀ j, (w.clients j).entries.length ≤ (w.clients i).entries.length) ∧
    ∀ socket currentBalance, w.child = some (socket, currentBalance) →
      currentBalance < k ∧ ∀ i, socket ∉ w.clients i := by
  have hw := Run.sound hk hr
  obtain ⟨hleast, hrange, hge⟩ := hw.uniform.ranked
  rw [hw.uniform.length] at hrange hge
  have hcount : ∀ i j : Fin k, w.server.balancer.load i ≤ w.server.balancer.load j →
      (w.clients i).entries.length ≤ (w.clients j).entries.length := by
    intro i j hle
    rw [hw.uniform.load_eq, hw.uniform.load_eq] at hle
    exact Nat.le_of_mul_le_mul_right hle (by decide)
  refine ⟨hw.uniform.load_eq, ⟨⟨_, hleast.range.trans_eq hw.uniform.length⟩, rfl, fun j => ?_⟩,
    ⟨⟨_, hrange⟩, rfl, fun j => ?_⟩, fun socket currentBalance hc => ?_⟩
  · exact hcount _ _ (hleast.le j (j.isLt.trans_eq hw.uniform.length.symm))
  · exact hcount _ _ (hge j j.isLt)
  · obtain ⟨hidx, -, -, hfresh⟩ := hw.child _ _ hc
    exact ⟨hidx, hfresh⟩

/-- A server with one protocol, whose threads give no clients away. -/
abbrev SampleStep : Program 1 106 → List (ℤ × Happening 1) → Program 1 106 → Prop :=
  Step ⟨false, false⟩ ⟨true, .little⟩ .single pollCallback

def sampleStart : Program 1 106 := start 0 fun _ => sampleBuffer

/-- `main` has accepted 5 and added it to `i`. -/
def sampleJoined (i : Fin 1) : Program 1 106 :=
  { sampleStart with server := sampleStart.server.add i (.make 5 deadlineMaxCountDefault ⟨0, 0⟩) 0 }

theorem run_joined : Run SampleStep sampleStart
    [(0, .event (.accepted 5)), (0, .event (.updated 0 5 0))] (sampleJoined 0) := by
  have haccept : SampleStep sampleStart [] { sampleStart with child := some (5, 0) } :=
    ⟨0, [], _, le_rfl, .accept 5 rfl (by decide) (by decide) fun _ => Keyed.not_mem_empty _, rfl, rfl⟩
  exact (Run.start.next haccept).next ⟨0, _, _, le_rfl, .add 5 0 ⟨0, 0⟩ rfl (by decide), rfl, rfl⟩

theorem balancer_counts_joined : (sampleJoined 0).server.balancer.load 0 =
    ((sampleJoined 0).clients 0).entries.length * deadlineMaxCountDefault :=
  (balancer_counts (by decide) run_joined).1 0

/-- `s` is the server, at the time of its last operation. -/
structure Refines (w : Program k n) (s : Server k × ℤ) : Prop where
  sound : w.Sound
  server : s.1 = w.server
  clock : s.2 ≤ w.clock

/-- A turn is one operation, or none. -/
theorem Refines.step {s : Server k × ℤ} (h : w.Refines s) (hstep : Step th b shot callback w es w') :
    ∃ s', Run (Server.ClockedStep b shot callback n) s (es.filterMap fun e => e.2.event?) s' ∧
      w'.Refines s' := by
  obtain ⟨s, last⟩ := s
  obtain ⟨hw, rfl, hlast⟩ := h
  have hw' := hw.step hstep
  obtain ⟨time, hs, v, hle, hturn, rfl, rfl⟩ := hstep
  have hes : (hs.map (time, ·)).filterMap (fun e => e.2.event?) = events hs := by
    rw [List.filterMap_map]
    rfl
  rw [hes]
  cases hturn.calls hw with
  | quiet hserver hevents =>
    rw [hevents]
    exact ⟨(w.server, last), .start, hw', hserver.symm, hlast.trans hle⟩
  | call op hf ho _ _ hexec =>
    exact ⟨(v.server, time), .next .start ⟨hlast.trans hle, op, hf, ho.new, hexec⟩, hw', rfl, le_rfl⟩

/-- **The threads refine the server**: what a run of them tells of it is told by a run of its
operations, which comes to the same server. -/
theorem threads_refine (hk : 0 < k) (hr : Run (Step th b shot callback) (start clock buffer) history w) :
    ∃ time ≤ w.clock, Run (Server.ClockedStep b shot callback n)
      (.start 10 (fun i : Fin k => (i : ℕ)) k, clock) (history.filterMap fun e => e.2.event?)
      (w.server, time) := by
  have hstart : (start clock buffer).Refines (.start 10 (fun i : Fin k => (i : ℕ)) k, clock) :=
    ⟨sound_start hk, rfl, le_rfl⟩
  obtain ⟨⟨s, time⟩, hserver, -, rfl, hle⟩ := hr.simulate hstart fun _ _ _ _ h hs => h.step hs
  exact ⟨time, hle, hserver⟩

theorem threads_refine_joined : ∃ time ≤ (sampleJoined 0).clock,
    Run (Server.ClockedStep ⟨true, .little⟩ .single pollCallback 106)
      (.start 10 (fun i : Fin 1 => (i : ℕ)) 1, 0) [.accepted 5, .updated 0 5 0]
      ((sampleJoined 0).server, time) :=
  threads_refine (by decide) run_joined

end Runs

section Queues

/-- What is read at `i` and not executed yet. -/
abbrev waiting (w : Program k n) (i : Fin k) : List NetworkPacket :=
  (w.server.protocols i).clientInfos.packetsToRead

theorem waiting_setBoth {s : Server k} {i : Fin k} {r : ServerLearnProtocol × Priority}
    (hr : r.1.clientInfos.packetsToRead = (s.protocols i).clientInfos.packetsToRead) (j : Fin k) :
    ((s.setBoth i r).protocols j).clientInfos.packetsToRead =
      (s.protocols j).clientInfos.packetsToRead :=
  Server.keeps_setBoth (fun p => p.clientInfos.packetsToRead) hr j

theorem waiting_set_other {s : Server k} {i j : Fin k} (hj : j ≠ i) (p : ServerLearnProtocol) :
    ((s.set i p).protocols j).clientInfos.packetsToRead = (s.protocols j).clientInfos.packetsToRead :=
  congrArg (fun p : ServerLearnProtocol => p.clientInfos.packetsToRead)
    (Server.setBoth_other s (p, s.balancer) hj)

theorem waiting_set_same (s : Server k) (i : Fin k) (p : ServerLearnProtocol) :
    ((s.set i p).protocols i).clientInfos.packetsToRead = p.clientInfos.packetsToRead :=
  congrArg (fun p : ServerLearnProtocol => p.clientInfos.packetsToRead)
    (Server.setBoth_same s i (p, s.balancer))

theorem waiting_move {s : Server k} {i j : Fin k} {socket : ℤ} {c : ClientInfo}
    (hc : (s.protocols i).clientInfos.oldest socket = some c) (l : Fin k) :
    ((s.move i j socket time).protocols l).clientInfos.packetsToRead =
      (s.protocols l).clientInfos.packetsToRead := by
  have hgive : ((s.protocols i).removeOldestClientAndReturn s.balancer socket
      ⟨time, 0⟩).2.1.clientInfos.packetsToRead = (s.protocols i).clientInfos.packetsToRead := by
    rw [removeOldest_some _ hc]
  exact (waiting_setBoth (r := (ServerLearnProtocol.add _ _ _ time)) rfl l).trans (waiting_setBoth hgive l)

theorem readAt_map {α : Type} (i : Fin k) (f : α → Event k) (l : List α) :
    (l.map fun a => .event (f a)).flatMap (Happening.readAt i) = [] := by
  simp [List.flatMap_map, Happening.readAt]

theorem executedAt_map {α : Type} (i : Fin k) (f : α → Event k) (l : List α) :
    (l.map fun a => .event (f a)).flatMap (Happening.executedAt i) = [] := by
  simp [List.flatMap_map, Happening.executedAt]

theorem Turn.queues (h : Turn th b shot callback time w hs w') (i : Fin k) :
    hs.flatMap (Happening.executedAt i) ++ w'.waiting i = w.waiting i ++ hs.flatMap (Happening.readAt i) := by
  have hexecute : ∀ j, [w.executing j].flatMap (Happening.executedAt i) ++
      ((w.server.set j ((w.server.protocols j).execute callback)).protocols i).clientInfos.packetsToRead =
      w.waiting i := by
    intro j
    by_cases hj : i = j
    · subst hj
      rw [waiting_set_same]
      simp [Happening.executedAt, ServerLearnProtocol.execute, packetsToRead_execute]
    · rw [waiting_set_other hj]
      simp [Happening.executedAt, Ne.symm hj]
  have hwrite : ∀ j sends, ((w.server.set j ((w.server.protocols j).write b sends).2.2).protocols
      i).clientInfos.packetsToRead = w.waiting i ++ [] := fun j sends =>
    (waiting_setBoth (r := (((w.server.protocols j).write b sends).2.2, w.server.balancer)) rfl i).trans
      (List.append_nil _).symm
  cases h with
  | add socket currentBalance now hc hidx =>
    exact (waiting_setBoth (r := ServerLearnProtocol.add _ _ _ time) rfl i).trans (List.append_nil _).symm
  | pollRead j events p v hp hr =>
    have hes : ∀ es : List (Event k), (es.map Happening.event).flatMap (Happening.executedAt i) = [] ∧
        (es.map Happening.event).flatMap (Happening.readAt i) = [] := fun es =>
      ⟨executedAt_map i id es, readAt_map i id es⟩
    have hread := (ServerLearnProtocol.pollRead_spec _ hr).packetsToRead
    simp only [List.flatMap_append, (hes _).1, (hes _).2, List.nil_append]
    by_cases hj : i = j
    · subst hj
      rw [waiting, waiting_set_same, hread]
      simp [Happening.executedAt, Happening.readAt]
    · rw [waiting, waiting_set_other hj]
      simp [Happening.executedAt, Happening.readAt, Ne.symm hj]
  | closeSocketConnections j sockets hp =>
    simp only [List.flatMap_nil, List.nil_append, List.append_nil]
    apply waiting_setBoth
    rw [closeSocketConnections_clientInfos]
  | switched j count prevSocket begin maxIdx minIdx c hp hs =>
    simpa [Happening.executedAt, Happening.readAt] using waiting_move (switching_oldest hs) i
  | execute j hp => simpa [Happening.readAt] using hexecute j
  | separateExecute j hsep he => simpa [Happening.readAt] using hexecute j
  | write j sends closed hp hok =>
    exact hwrite j sends
  | separateWrite j sends closed hsep he hok =>
    exact hwrite j sends
  | check since j socketsToClose hh =>
    rw [executedAt_map i fun packet : NetworkPacket => .warned packet.socket,
      readAt_map i fun packet : NetworkPacket => .warned packet.socket, List.nil_append, List.append_nil]
    exact waiting_setBoth (r := (_, w.server.balancer))
      ((w.server.protocols j).execHealthCheck_spec socketsToClose time).packetsToRead i
  | _ => exact (List.append_nil _).symm

/-- A call of `Execute` takes all that waits, and tells what the callback was called with. -/
theorem Turn.executed (h : Turn th b shot callback time w hs w') {i : Fin k}
    {packetsToRead : List NetworkPacket} {calls : List (NetworkPacket × ClientInfo)}
    (he : .executed i packetsToRead calls ∈ hs) :
    hs = [w.executing i] ∧ w.executing i = .executed i packetsToRead calls := by
  have hone : ∀ j, Happening.executed i packetsToRead calls ∈ [w.executing j] →
      [w.executing j] = [w.executing i] ∧ w.executing i = .executed i packetsToRead calls := by
    intro j hj
    have heq := List.mem_singleton.mp hj
    obtain ⟨rfl, -⟩ := Happening.executed.inj heq
    exact ⟨rfl, heq.symm⟩
  cases h with
  | execute j hp => exact hone j he
  | separateExecute j hsep hp => exact hone j he
  | _ => simp at he

/-- Between `PollRead` and `Execute`. -/
def HasRead : PollAndRead → Prop
  | .closeSocketConnections _ | .downCallback _ _ | .execute => True
  | _ => False

theorem hasRead_afterClosing (hsep : th.separate = false) : HasRead (afterClosing th) := by
  simp [afterClosing, hsep, HasRead]

theorem hasRead_afterReading (hsep : th.separate = false) (sockets : List ℤ) :
    HasRead (afterReading th sockets) := by
  rw [afterReading]
  split_ifs
  · exact hasRead_afterClosing hsep
  · trivial

theorem hasRead_afterRemoving (hsep : th.separate = false) (count : Option ℕ) :
    HasRead (afterRemoving th count) := by
  cases count with
  | none => exact hasRead_afterClosing hsep
  | some count =>
    rw [afterRemoving]
    split_ifs
    · trivial
    · exact hasRead_afterClosing hsep

/-- Nothing waits at a protocol whose thread has executed what it has read. -/
def Emptied (w : Program k n) : Prop := ∀ i, ¬HasRead (w.pollAndRead i) → w.waiting i = []

theorem Emptied.same (h : w.Emptied) (hpolls : w'.pollAndRead = w.pollAndRead)
    (hwaiting : ∀ j, w'.waiting j = w.waiting j) : w'.Emptied := by
  intro j hj
  rw [hwaiting]
  exact h j (hpolls ▸ hj)

/-- A thread goes on to a point where its packets may wait, or they do not. -/
theorem Emptied.polls (h : w.Emptied) {i : Fin k} {next : PollAndRead}
    (hpolls : w'.pollAndRead = Function.update w.pollAndRead i next)
    (hwaiting : ∀ j ≠ i, w'.waiting j = w.waiting j) (hnext : HasRead next ∨ w'.waiting i = []) :
    w'.Emptied := by
  intro j hj
  rw [hpolls] at hj
  by_cases hji : j = i
  · subst hji
    rw [Function.update_self] at hj
    exact hnext.resolve_left hj
  · rw [Function.update_of_ne hji] at hj
    rw [hwaiting j hji]
    exact h j hj

theorem Emptied.turn (h : w.Emptied) (hsep : th.separate = false)
    (ht : Turn th b shot callback time w hs w') : w'.Emptied := by
  have hq := ht.queues
  cases ht with
  | accept => exact h.same rfl fun _ => rfl
  | add => exact h.same rfl fun j => by simpa [Happening.executedAt, Happening.readAt] using hq j
  | size i hp _ => exact h.polls rfl (fun _ _ => rfl) (Or.inr (h i (by simp [hp, HasRead])))
  | pollRead i events p v hp hr =>
    exact h.polls rfl (fun j hj => waiting_set_other hj p) (Or.inl (hasRead_afterReading hsep _))
  | closeSocketConnections i sockets hp =>
    exact h.polls rfl (fun j _ => by simpa using hq j) (Or.inl (hasRead_afterRemoving hsep _))
  | switched i count prevSocket begin maxIdx minIdx c hp _ =>
    exact h.polls rfl (fun j _ => by simpa [Happening.executedAt, Happening.readAt] using hq j)
      (Or.inl trivial)
  | broken i count prevSocket begin hp _ =>
    exact h.polls rfl (fun _ _ => rfl) (Or.inl (hasRead_afterClosing hsep))
  | counted i prevSocket hp => exact h.polls rfl (fun _ _ => rfl) (Or.inl (hasRead_afterClosing hsep))
  | execute i hp =>
    refine h.polls rfl (fun j hj => waiting_set_other hj _) (Or.inr ?_)
    simpa [Happening.executedAt, Happening.readAt] using hq i
  | write i sends closed hp _ =>
    have hsame : ∀ j, _ := fun j => by simpa using hq j
    exact h.polls rfl (fun j _ => hsame j) (Or.inr ((hsame i).trans (h i (by simp [hp, HasRead]))))
  | separateSize i hsep' => simp [hsep] at hsep'
  | separateExecute i hsep' => simp [hsep] at hsep'
  | separateWrite i sends closed hsep' => simp [hsep] at hsep'
  | wake => exact h.same rfl fun _ => rfl
  | check since i socketsToClose hh =>
    refine h.same rfl fun j => ?_
    have hj := hq j
    rwa [executedAt_map j fun packet : NetworkPacket => .warned packet.socket,
      readAt_map j fun packet : NetworkPacket => .warned packet.socket, List.nil_append,
      List.append_nil] at hj
  | closeSockets => exact h.same rfl fun _ => rfl

variable {clock : ℤ} {buffer : Fin k → Buffer n} {history es : List (ℤ × Happening k)}

/-- The packets that the reads at `i` have left to be executed. -/
def reads (i : Fin k) (history : List (ℤ × Happening k)) : List NetworkPacket :=
  history.flatMap fun e => e.2.readAt i

def samplePacket : NetworkPacket := ⟨5, Commands.send, Commands.ascii "hi".toList⟩

def sampleEvent : EpollEvent :=
  { fd := 5, readable := true, recv := [.arrive (samplePacket.marshall .little)] }

end Queues

end Program

end PollServer
