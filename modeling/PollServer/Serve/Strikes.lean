import PollServer.Serve.Load

/-! Two-strike termination: a client whose flag is set has been warned during its
connection, and has sent nothing since that would have cleared the flag. -/

namespace PollServer

open Lib NetworkPacket ClientInfos

/-- What ends a warning of `socket`: a new connection, or a packet that clears the flag. -/
def EndsStrike {k : ℕ} (socket : ℤ) (e : Event k) : Prop :=
  e = .accepted socket ∨ ∃ p : NetworkPacket, e = .received p ∧ p.socket = socket ∧ p.Clears

theorem not_endsStrike_updated {k : ℕ} (socket : ℤ) (i : Fin k) (socket' time : ℤ) :
    ¬EndsStrike socket (.updated i socket' time) := by
  simp [EndsStrike]

theorem not_endsStrike_warned {k : ℕ} (socket socket' : ℤ) : ¬EndsStrike (k := k) socket (.warned socket') := by
  simp [EndsStrike]

/-- `socket` has been warned during its connection and not been heard of since. -/
def Struck {k : ℕ} (socket : ℤ) (history : List (Event k)) : Prop :=
  Since (· = .warned socket) (EndsStrike socket) history

namespace Server

variable {k n : ℕ}

/-- A client is flagged only after a warning, and nothing asks for its termination now. -/
def Flagged (history : List (Event k)) (s : Server k) : Prop :=
  ∀ i, ∀ c ∈ (s.protocols i).clients.entries, c.terminateNow = false ∧
    (c.terminateOnNextCycle = true → Struck c.socket history)

section SetBoth

variable {s : Server k} {i : Fin k} {r : ServerLearnProtocol × Priority}
  {history es : List (Event k)}

theorem Flagged.append (h : s.Flagged history)
    (hes : ∀ i, ∀ c ∈ (s.protocols i).clients.entries, ∀ e ∈ es, ¬EndsStrike c.socket e) :
    s.Flagged (history ++ es) := fun i c hc =>
  ⟨(h i c hc).1, fun hf => ((h i c hc).2 hf).append (hes i c hc)⟩

theorem Flagged.setBoth (h : s.Flagged history)
    (hes : ∀ j, j ≠ i → ∀ c ∈ (s.protocols j).clients.entries, ∀ e ∈ es, ¬EndsStrike c.socket e)
    (hr : ∀ c ∈ r.1.clients.entries, c.terminateNow = false ∧
      (c.terminateOnNextCycle = true → Struck c.socket (history ++ es))) :
    (s.setBoth i r).Flagged (history ++ es) := by
  intro j c hc
  by_cases hj : j = i
  · rw [hj, setBoth_same] at hc
    exact hr c hc
  · rw [setBoth_other _ _ hj] at hc
    exact ⟨(h j c hc).1, fun hf => ((h j c hc).2 hf).append (hes j hj c hc)⟩

theorem Flagged.drops (h : s.Flagged history)
    (hr : ∀ c ∈ r.1.clients.entries, c ∈ (s.protocols i).clients.entries) :
    (s.setBoth i r).Flagged history := by
  have hset : (s.setBoth i r).Flagged (history ++ []) :=
    h.setBoth (fun _ _ _ _ _ he => absurd he List.not_mem_nil)
      (fun c hc => by rw [List.append_nil]; exact h i c (hr c hc))
  rwa [List.append_nil] at hset

theorem Flagged.undisturbed (h : s.Flagged history) {p : ServerLearnProtocol}
    (hp : (s.protocols i).Undisturbed p) : (s.setBoth i (p, s.balancer)).Flagged history := by
  apply h.drops
  intro c hc
  rwa [hp.clients] at hc

theorem Flagged.add (h : s.Flagged history) {c : ClientInfo} (time : ℤ)
    (hes : ∀ j, ∀ c' ∈ (s.protocols j).clients.entries, ∀ e ∈ es, ¬EndsStrike c'.socket e)
    (hc : c.terminateNow = false ∧ (c.terminateOnNextCycle = true → Struck c.socket (history ++ es))) :
    (s.add i c time).Flagged (history ++ es) := by
  refine h.setBoth (fun j _ => hes j) fun c' hc' => ?_
  rcases Keyed.mem_entries_insert _ hc' with rfl | hc'
  · exact hc
  · exact h.append hes i c' hc'

theorem Flagged.pollRead (h : s.Flagged history) (ha : s.Alone) {time : ℤ}
    {p : ServerLearnProtocol} {v : Polled n} (hp : (s.protocols i).Received time p v)
    (hes : ∀ e ∈ es, ∃ socket time, e = .updated i socket time) :
    (s.setBoth i (p, s.balancer)).Flagged (history ++ (v.dispatched.map .received ++ es)) := by
  refine h.setBoth (fun j hj c hc e he hends => ?_) fun c hc => ?_
  · rcases List.mem_append.mp he with he | he
    · obtain ⟨q, hq, rfl⟩ := List.mem_map.mp he
      obtain hacc | ⟨q', heq, hsocket, -⟩ := hends
      · cases hacc
      · cases heq
        have hknown := hp.known q hq
        rw [hsocket] at hknown
        exact hj (ha _ _ _ (Keyed.mem_of_entry _ hc) hknown)
    · obtain ⟨socket, time, rfl⟩ := hes e he
      exact not_endsStrike_updated _ _ _ _ hends
  · obtain ⟨c0, hc0, hafter⟩ := hp.clients.back hc
    refine ⟨hafter.terminateNow.trans (h i c0 hc0).1, fun hf => ?_⟩
    rw [hafter.terminateOnNextCycle, Bool.and_eq_true, List.all_eq_true] at hf
    rw [hafter.socket]
    apply ((h i c0 hc0).2 hf.1).append
    intro e he hends
    rcases List.mem_append.mp he with he | he
    · obtain ⟨q, hq, rfl⟩ := List.mem_map.mp he
      obtain hacc | ⟨q', heq, hclears⟩ := hends
      · cases hacc
      · cases heq
        exact absurd hclears (of_decide_eq_true (hf.2 q hq))
    · obtain ⟨socket, time, rfl⟩ := hes e he
      exact not_endsStrike_updated _ _ _ _ hends

theorem Flagged.check (h : s.Flagged history) {p : ServerLearnProtocol}
    {ws : List ℤ} (hp : Keyed.Changed (Warned ws) (s.protocols i).clients p.clients) :
    (s.setBoth i (p, s.balancer)).Flagged (history ++ ws.map .warned) := by
  have hes : ∀ socket, ∀ e ∈ ws.map (Event.warned (k := k)), ¬EndsStrike socket e := by
    intro socket e he
    obtain ⟨socket', -, rfl⟩ := List.mem_map.mp he
    exact not_endsStrike_warned _ _
  refine h.setBoth (fun j _ c _ => hes c.socket) fun c hc => ?_
  obtain ⟨c0, hc0, hwarned⟩ := hp.back hc
  refine ⟨hwarned.terminateNow.trans (h i c0 hc0).1, fun hf => ?_⟩
  rw [hwarned.socket]
  rw [hwarned.terminateOnNextCycle, Bool.or_eq_true, decide_eq_true_eq] at hf
  rcases hf with hf | hw
  · exact ((h i c0 hc0).2 hf).append (hes _)
  · exact Since.of_mem (List.mem_map_of_mem hw) rfl (hes _)

theorem Flagged.move (h : s.Flagged history) {socket : ℤ} {c : ClientInfo}
    (hc : (s.protocols i).clientInfos.oldest socket = some c) (j : Fin k) (time : ℤ) :
    (s.move i j socket time).Flagged (history ++ [.updated j c.socket time]) := by
  have hes : ∀ socket, ∀ e ∈ [Event.updated j c.socket time], ¬EndsStrike socket e := by
    intro socket e he
    rw [List.mem_singleton.mp he]
    exact not_endsStrike_updated _ _ _ _
  have hgive : (s.removeOldest i socket time).2.Flagged history := by
    apply h.drops
    intro c' hc'
    rw [removeOldest_some _ hc] at hc'
    exact ((Keyed.mem_entries_erase _).mp hc').1
  obtain ⟨hnow, hflag⟩ := h i c (mem_of_oldest hc)
  rw [Server.move, removeOldest_eq hc]
  exact hgive.add time (fun _ c' _ => hes c'.socket) ⟨hnow, fun hf => (hflag hf).append (hes _)⟩

end SetBoth

section Runs

variable (b : Build) (shot : Shot) (callback : NetworkPacket → ClientInfo → NetworkPacket)

/-- The client of a new connection is as its constructor makes it. -/
def New : Op k n → Prop
  | .add _ clientInfo => ∃ socket maxCount now, clientInfo = .make socket maxCount now
  | _ => True

theorem Flagged.exec {s s' : Server k} {history es : List (Event k)} {time : ℤ} {op : Op k n}
    (h : s.Flagged history) (ha : s.Alone) (hf : s.Fresh op) (hn : New op)
    (hexec : s.exec b shot callback time op = .ok (es, s')) : s'.Flagged (history ++ es) := by
  cases op with
  | add i c =>
    cases hexec
    obtain ⟨socket, maxCount, now, rfl⟩ := hn
    refine h.add time (fun j c' hc' e he => ?_) ⟨rfl, fun hflag => absurd hflag (by simp [ClientInfo.make])⟩
    have hne : socket ≠ c'.socket := fun heq =>
      hf j (show socket ∈ _ from heq ▸ Keyed.mem_of_entry _ hc')
    simp only [List.mem_cons, List.not_mem_nil, or_false] at he
    rcases he with rfl | rfl
    · simpa [EndsStrike, ClientInfo.make] using hne
    · exact not_endsStrike_updated _ _ _ _
  | pollRead i buffer events =>
    obtain ⟨p, v, hspec, rfl, rfl⟩ := exec_pollRead hexec
    apply h.pollRead ha hspec
    intro e he
    obtain ⟨socket, -, rfl⟩ := List.mem_map.mp he
    exact ⟨socket, time, rfl⟩
  | closeSocketConnections i sockets =>
    cases hexec
    rw [List.append_nil]
    apply h.drops
    intro c hc
    rw [ServerLearnProtocol.clients, closeSocketConnections_clientInfos,
      Keyed.mem_entries_eraseAll] at hc
    exact hc.1
  | removeOldest i socket =>
    cases hexec
    rw [List.append_nil]
    apply h.drops
    intro c hc
    cases ho : (s.protocols i).clientInfos.oldest socket with
    | none =>
      rw [removeOldest_none _ ho] at hc
      exact hc
    | some c' =>
      rw [removeOldest_some _ ho] at hc
      exact ((Keyed.mem_entries_erase _).mp hc).1
  | move i j socket =>
    obtain ⟨rfl, rfl⟩ | ⟨c, hc, rfl, rfl⟩ := exec_move hexec
    · rwa [List.append_nil]
    · exact h.move hc j time
  | execHealthCheck i =>
    obtain ⟨_, p, hspec, rfl, rfl⟩ := exec_execHealthCheck hexec
    exact h.check hspec.clients
  | execute i =>
    obtain ⟨p, hp, rfl, rfl⟩ := exec_execute hexec
    rw [List.append_nil]
    exact h.undisturbed hp
  | write i sends =>
    obtain ⟨p, hp, rfl, rfl⟩ := exec_write hexec
    rw [List.append_nil]
    exact h.undisturbed hp

/-- A step of a server to which only new connections are added. -/
def NewStep (n : ℕ) (s : Server k) (es : List (Event k)) (s' : Server k) : Prop :=
  ∃ (time : ℤ) (op : Op k n), s.Fresh op ∧ New op ∧ s.exec b shot callback time op = .ok (es, s')

theorem Run.flagged {timeout : ℤ} {balancerIndex : Fin k → ℕ} {maxCount : ℕ}
    {history : List (Event k)} {s : Server k}
    (hr : Run (NewStep b shot callback n) (start timeout balancerIndex maxCount) history s) :
    s.Alone ∧ s.Flagged history := by
  refine hr.invariant (I := fun history s => s.Alone ∧ s.Flagged history) ⟨?_, ?_⟩ ?_
  · exact fun _ _ socket hs => absurd hs (Keyed.not_mem_empty socket)
  · exact fun _ _ hc => absurd hc List.not_mem_nil
  · rintro history es s s' ⟨ha, hf⟩ ⟨time, op, hfresh, hnew, hexec⟩
    exact ⟨ha.exec b shot callback hfresh hexec, hf.exec b shot callback ha hfresh hnew hexec⟩

/-- **Two-strike termination.** A client that a health check selects has been warned during
its connection and not been heard of since. One that is considered and not selected gets
one warning, and its flag. -/
theorem two_strikes {timeout : ℤ} {balancerIndex : Fin k → ℕ} {maxCount : ℕ}
    {history : List (Event k)} {s : Server k}
    (hr : Run (NewStep b shot callback n) (start timeout balancerIndex maxCount) history s)
    (i : Fin k) (socketsSelected : List ℤ) (time : ℤ) :
    let r := (s.protocols i).execHealthCheck socketsSelected time
    (∀ socket ∈ r.1, socket ∉ socketsSelected → socket ∈ (s.protocols i).clients →
      Struck socket history) ∧
    ∀ socket ∈ (s.protocols i).considered time, socket ∈ (s.protocols i).clients → socket ∉ r.1 →
      ∃ ws, r.2.clientInfos.packetsToWrite = (s.protocols i).clientInfos.packetsToWrite ++ ws ∧
        ws.count (heartBeatTo socket) = 1 ∧
        ∃ c, r.2.clients.find socket = some c ∧ c.terminateOnNextCycle = true := by
  obtain ⟨ha, hf⟩ := Run.flagged b shot callback hr
  have hspec := (s.protocols i).execHealthCheck_spec socketsSelected time
  refine ⟨fun socket hsel hnot hclient => ?_, fun socket hcons hclient hnot => ?_⟩
  · obtain ⟨-, hspared⟩ := ((hspec.selected socket).mp hsel).resolve_left hnot
    obtain ⟨c, hc⟩ := (Keyed.mem_iff_find _).mp hclient
    obtain ⟨hmem, rfl⟩ := (Keyed.find_eq_some _).mp hc
    obtain ⟨hnow, hflag⟩ := hf i c hmem
    apply hflag
    simpa [spared, hc, hnow] using hspared
  · have hspared : spared (s.protocols i).clients socket = true := by
      by_contra hne
      exact hnot ((hspec.selected socket).mpr (Or.inr ⟨hcons, by simpa using hne⟩))
    have hwarned : socket ∈ (s.protocols i).warned time := List.mem_filter.mpr ⟨hcons, hspared⟩
    have hnodup : (((s.protocols i).warned time).map heartBeatTo).Nodup :=
      (((s.protocols i).nodup_considered time).filter _).map fun _ _ h => congrArg (·.socket) h
    refine ⟨_, hspec.packetsToWrite,
      List.count_eq_one_of_mem hnodup (List.mem_map_of_mem hwarned), ?_⟩
    rw [Keyed.mem_def, ← hspec.clients.keys fun _ _ h => h.socket, ← Keyed.mem_def] at hclient
    obtain ⟨c, hc⟩ := (Keyed.mem_iff_find _).mp hclient
    obtain ⟨hmem, rfl⟩ := (Keyed.find_eq_some _).mp hc
    obtain ⟨c0, -, hw⟩ := hspec.clients.back hmem
    refine ⟨c, hc, ?_⟩
    rw [hw.terminateOnNextCycle, ← hw.socket]
    simp [hwarned]

/-- A client that is warned at 10 and selected at 20. -/
theorem two_strikes_selected :
    Struck (k := 1) 5 [.accepted 5, .updated 0 5 0, .warned 5] := by
  let s0 : Server 1 := start 10 (fun i => (i : ℕ)) 1
  let s1 := s0.add 0 (.make 5 25 ⟨0, 0⟩) 0
  let s2 := s1.set 0 ((s1.protocols 0).execHealthCheck [] 10).2
  have h1 : Run (NewStep ⟨true, .little⟩ .multi pollCallback 106) s0 _ s1 :=
    .next .start ⟨0, .add 0 (.make 5 25 ⟨0, 0⟩), fun _ => Keyed.not_mem_empty _, ⟨5, 25, ⟨0, 0⟩, rfl⟩,
      rfl⟩
  have h2 : Run (NewStep ⟨true, .little⟩ .multi pollCallback 106) s0
      [.accepted 5, .updated 0 5 0, .warned 5] s2 :=
    .next h1 ⟨10, .execHealthCheck 0, trivial, trivial, rfl⟩
  exact (two_strikes ⟨true, .little⟩ .multi pollCallback h2 0 [] 20).1 5 (by decide) (by decide)
    (by decide)

end Runs

end Server

end PollServer
