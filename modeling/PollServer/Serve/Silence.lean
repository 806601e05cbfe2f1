import PollServer.Serve.Idle
import PollServer.Serve.Strikes

/-! What a health check selects, exactly; and that it selects a client that stays silent
behind a check that considered it. -/

namespace PollServer

open Lib NetworkPacket ClientInfos

theorem mem_updates_iff {k : ℕ} {i : Fin k} {history : List (Event k)} {socket t : ℤ} :
    (socket, t) ∈ updates i history ↔ .updated i socket t ∈ history := by
  exact ⟨mem_updates, fun h => List.mem_filterMap.mpr ⟨_, h, if_pos rfl⟩⟩

theorem mem_of_spared {infos : ClientInfoMap} {socket : ℤ} (h : spared infos socket = true) :
    socket ∈ infos := by
  by_contra hnot
  rw [spared, (Keyed.find_eq_none _).mpr hnot] at h
  cases h

namespace Server

variable {k n : ℕ} {s : Server k} {i : Fin k} {history es : List (Event k)}

/-- A client that has been warned and not heard of since is flagged. -/
def Marked (history : List (Event k)) (s : Server k) : Prop :=
  ∀ i, ∀ c ∈ (s.protocols i).clients.entries, Struck c.socket history → c.terminateOnNextCycle = true

/-- What warns nobody leaves only those struck that were before. -/
theorem struck_before {socket : ℤ} (hes : ∀ socket, .warned socket ∉ es)
    (h : Struck socket (history ++ es)) : Struck socket history ∧ ∀ e ∈ es, ¬EndsStrike socket e :=
  (Since.of_append h).resolve_left fun ⟨_, he, heq⟩ => hes socket (heq ▸ he)

theorem Marked.setBoth (h : s.Marked history) {r : ServerLearnProtocol × Priority}
    (hes : ∀ j ≠ i, ∀ c ∈ (s.protocols j).clients.entries, .warned c.socket ∉ es)
    (hr : ∀ c ∈ r.1.clients.entries, Struck c.socket (history ++ es) → c.terminateOnNextCycle = true) :
    (s.setBoth i r).Marked (history ++ es) := by
  intro j c hc hstruck
  by_cases hj : j = i
  · rw [hj, setBoth_same] at hc
    exact hr c hc hstruck
  · rw [setBoth_other _ _ hj] at hc
    refine h j c hc ((Since.of_append hstruck).resolve_left ?_).1
    rintro ⟨_, he, rfl⟩
    exact hes j hj c hc he

theorem Marked.drops (h : s.Marked history) {r : ServerLearnProtocol × Priority}
    (hr : ∀ c ∈ r.1.clients.entries, c ∈ (s.protocols i).clients.entries) :
    (s.setBoth i r).Marked (history ++ []) :=
  h.setBoth (fun _ _ _ _ => List.not_mem_nil) fun c hc hstruck =>
    h i c (hr c hc) (by rwa [List.append_nil] at hstruck)

theorem Marked.pollRead (h : s.Marked history) {time : ℤ} {p : ServerLearnProtocol} {v : Polled n}
    (hp : (s.protocols i).Received time p v) (hes : ∀ e ∈ es, ∃ socket time, e = .updated i socket time) :
    (s.setBoth i (p, s.balancer)).Marked (history ++ (v.dispatched.map .received ++ es)) := by
  have hquiet : ∀ socket, .warned socket ∉ v.dispatched.map (Event.received (k := k)) ++ es := by
    intro socket hmem
    rcases List.mem_append.mp hmem with hmem | hmem
    · obtain ⟨q, -, heq⟩ := List.mem_map.mp hmem
      cases heq
    · obtain ⟨socket', time', heq⟩ := hes _ hmem
      cases heq
  refine h.setBoth (fun _ _ c _ => hquiet c.socket) fun c hc hstruck => ?_
  obtain ⟨c0, hc0, hafter⟩ := hp.clients.back hc
  obtain ⟨hbefore, hends⟩ := struck_before hquiet hstruck
  rw [hafter.socket] at hbefore hends
  rw [hafter.terminateOnNextCycle, h i c0 hc0 hbefore, Bool.true_and, List.all_eq_true]
  intro q hq
  have hq' := hends (.received q) (List.mem_append_left _ (List.mem_map_of_mem hq))
  exact decide_eq_true fun hclears => hq' (Or.inr ⟨q, rfl, hclears⟩)

/-- A check flags whom it warns, and it warns only clients of its own protocol. -/
theorem Marked.check (h : s.Marked history) (ha : s.Alone) {p : ServerLearnProtocol} {ws : List ℤ}
    (hp : Keyed.Changed (Warned ws) (s.protocols i).clients p.clients)
    (hws : ∀ socket ∈ ws, socket ∈ (s.protocols i).clients) :
    (s.setBoth i (p, s.balancer)).Marked (history ++ ws.map .warned) := by
  have hmem : ∀ socket, Event.warned (k := k) socket ∈ ws.map Event.warned → socket ∈ ws := by
    intro socket he
    obtain ⟨socket', hs, heq⟩ := List.mem_map.mp he
    cases heq
    exact hs
  refine h.setBoth (fun j hj c hc he => ?_) fun c hc hstruck => ?_
  · exact hj (ha _ _ _ (Keyed.mem_of_entry _ hc) (hws _ (hmem _ he)))
  · obtain ⟨c0, hc0, hwarned⟩ := hp.back hc
    rw [hwarned.socket] at hstruck
    rw [hwarned.terminateOnNextCycle, Bool.or_eq_true, decide_eq_true_eq]
    rcases Since.of_append hstruck with ⟨_, he, rfl⟩ | ⟨hbefore, -⟩
    · exact Or.inr (hmem _ he)
    · exact Or.inl (h i c0 hc0 hbefore)

theorem Marked.add (h : s.Marked history) {c : ClientInfo} (time : ℤ)
    (hes : ∀ socket, .warned socket ∉ es)
    (hc : Struck c.socket (history ++ es) → c.terminateOnNextCycle = true) :
    (s.add i c time).Marked (history ++ es) := by
  refine h.setBoth (fun _ _ c' _ => hes c'.socket) fun c' hc' hstruck => ?_
  rcases Keyed.mem_entries_insert _ hc' with rfl | hc'
  · exact hc hstruck
  · exact h i c' hc' (struck_before hes hstruck).1

theorem Marked.move (h : s.Marked history) {socket : ℤ} {c : ClientInfo}
    (hc : (s.protocols i).clientInfos.oldest socket = some c) (j : Fin k) (time : ℤ) :
    (s.move i j socket time).Marked (history ++ [.updated j c.socket time]) := by
  have hgive : (s.removeOldest i socket time).2.Marked (history ++ []) := by
    apply h.drops
    intro c' hc'
    rw [removeOldest_some _ hc] at hc'
    exact ((Keyed.mem_entries_erase _).mp hc').1
  have hes : ∀ socket, .warned socket ∉ [Event.updated j c.socket time] := by simp
  rw [List.append_nil] at hgive
  rw [Server.move, removeOldest_eq hc]
  exact hgive.add time hes fun hstruck => h i c (mem_of_oldest hc) (struck_before hes hstruck).1

section Runs

variable (b : Build) (shot : Shot) (callback : NetworkPacket → ClientInfo → NetworkPacket)

theorem Marked.exec {s' : Server k} {time : ℤ} {op : Op k n} (h : s.Marked history) (ha : s.Alone)
    (hn : New op) (hexec : s.exec b shot callback time op = .ok (es, s')) :
    s'.Marked (history ++ es) := by
  cases op with
  | add i c =>
    cases hexec
    refine h.add time (by simp) fun hstruck => ?_
    have hnew := (struck_before (by simp) hstruck).2 (.accepted c.socket) List.mem_cons_self
    exact absurd (Or.inl rfl) hnew
  | pollRead i buffer events =>
    obtain ⟨p, v, hspec, rfl, rfl⟩ := exec_pollRead hexec
    apply h.pollRead hspec
    intro e he
    obtain ⟨socket, -, rfl⟩ := List.mem_map.mp he
    exact ⟨socket, time, rfl⟩
  | closeSocketConnections i sockets =>
    cases hexec
    apply h.drops
    intro c hc
    rw [ServerLearnProtocol.clients, closeSocketConnections_clientInfos,
      Keyed.mem_entries_eraseAll] at hc
    exact hc.1
  | removeOldest i socket =>
    cases hexec
    apply h.drops
    intro c hc
    cases ho : (s.protocols i).clientInfos.oldest socket with
    | none =>
      rw [removeOldest_none _ ho] at hc
      exact hc
    | some c' =>
      rw [removeOldest_some _ ho] at hc
      exact ((Keyed.mem_entries_erase _).mp hc).1
  | move i j socket =>
    obtain ⟨rfl, rfl⟩ | ⟨c, hc, rfl, rfl⟩ := exec_move hexec
    · rwa [List.append_nil]
    · exact h.move hc j time
  | execHealthCheck i =>
    obtain ⟨_, p, hspec, rfl, rfl⟩ := exec_execHealthCheck hexec
    exact h.check ha hspec.clients fun socket hs => mem_of_spared (List.mem_filter.mp hs).2
  | execute i =>
    obtain ⟨p, hp, rfl, rfl⟩ := exec_execute hexec
    exact h.drops fun c hc => by rwa [hp.clients] at hc
  | write i sends =>
    obtain ⟨p, hp, rfl, rfl⟩ := exec_write hexec
    exact h.drops fun c hc => by rwa [hp.clients] at hc

/-- A step of a server with its clock, to which only new connections are added. -/
def ClockedStep (n : ℕ) (w : Server k × ℤ) (es : List (Event k)) (w' : Server k × ℤ) : Prop :=
  w.2 ≤ w'.2 ∧ ∃ op : Op k n, w.1.Fresh op ∧ New op ∧ w.1.exec b shot callback w'.2 op = .ok (es, w'.1)

/-- What a run has brought about: the updates, the flags and the timeouts. -/
structure Watched (timeout : ℤ) (history : List (Event k)) (w : Server k × ℤ) : Prop where
  recorded : Recorded history w
  alone : w.1.Alone
  flagged : w.1.Flagged history
  marked : w.1.Marked history
  timeouts : ∀ i, (w.1.protocols i).timeout = timeout

variable {b shot callback} {timeout : ℤ} {w w' : Server k × ℤ}

theorem Watched.step (h : Watched timeout history w) (hs : ClockedStep b shot callback n w es w') :
    Watched timeout (history ++ es) w' := by
  obtain ⟨hle, op, hfresh, hnew, hexec⟩ := hs
  exact ⟨h.recorded.step b shot callback ⟨hle, op, hexec⟩, h.alone.exec b shot callback hfresh hexec,
    h.flagged.exec b shot callback h.alone hfresh hnew hexec,
    h.marked.exec b shot callback h.alone hnew hexec,
    fun i => (exec_stamped b shot callback hexec i).timeout.trans (h.timeouts i)⟩

theorem watched_start (timeout : ℤ) (balancerIndex : Fin k → ℕ) (maxCount : ℕ) (clock : ℤ) :
    Watched timeout [] (start timeout balancerIndex maxCount, clock) where
  recorded := recorded_start timeout balancerIndex maxCount clock
  alone _ _ socket hs := absurd hs (Keyed.not_mem_empty socket)
  flagged _ _ hc := absurd hc List.not_mem_nil
  marked _ _ hc := absurd hc List.not_mem_nil
  timeouts _ := rfl

theorem Run.watched (h : Watched timeout history w) {more : List (Event k)}
    (hr : Run (ClockedStep b shot callback n) w more w') : Watched timeout (history ++ more) w' :=
  hr.invariant (I := fun more w' => Watched timeout (history ++ more) w')
    (by rwa [List.append_nil]) fun more es _ _ h hs => by
      rw [← List.append_assoc]
      exact h.step hs

/-- There was an update of `socket` at protocol `i`, `timeout` ago or earlier. -/
def Due (timeout : ℤ) (history : List (Event k)) (i : Fin k) (now socket : ℤ) : Prop :=
  ∃ t, .updated i socket t ∈ history ∧ timeout ≤ now - t

theorem Watched.considered (h : Watched timeout history w) {now socket : ℤ} :
    socket ∈ (w.1.protocols i).considered now ↔ Due timeout history i now socket := by
  have hsorted := h.recorded.sorted i
  rw [← h.recorded.pairs i] at hsorted
  rw [mem_considered hsorted, h.recorded.pairs i, h.timeouts i]
  exact exists_congr fun t => and_congr_left fun _ => mem_updates_iff

theorem Watched.spared (h : Watched timeout history w) {socket : ℤ} :
    spared (w.1.protocols i).clients socket = false ↔
      (socket ∈ (w.1.protocols i).clients → Struck socket history) := by
  rw [ClientInfos.spared]
  cases hfind : (w.1.protocols i).clients.find socket with
  | none => simp [(Keyed.find_eq_none _).mp hfind]
  | some c =>
    obtain ⟨hc, rfl⟩ := (Keyed.find_eq_some _).mp hfind
    obtain ⟨hnow, hflag⟩ := h.flagged i c hc
    simp only [hnow, Bool.or_false, Bool.not_eq_false']
    exact ⟨fun hf _ => hflag hf, fun hstruck => h.marked i c hc (hstruck (Keyed.mem_of_entry _ hc))⟩

theorem Watched.selected (h : Watched timeout history w) {now socket : ℤ} :
    socket ∈ ((w.1.protocols i).execHealthCheck [] now).1 ↔
      Due timeout history i now socket ∧
        (socket ∈ (w.1.protocols i).clients → Struck socket history) := by
  rw [((w.1.protocols i).execHealthCheck_spec [] now).selected, h.considered, h.spared]
  simp

/-- The events of a check. -/
def warnings (s : Server k) (i : Fin k) (now : ℤ) : List (Event k) :=
  ((s.protocols i).warned now).map .warned

theorem Watched.checked (h : Watched timeout history w) {now : ℤ} (hnow : w.2 ≤ now) (i : Fin k) :
    Watched timeout (history ++ w.1.warnings i now)
      (w.1.set i ((w.1.protocols i).execHealthCheck [] now).2, now) := by
  have hexec : w.1.exec ⟨true, .little⟩ .multi pollCallback now (.execHealthCheck i : Op k 0) =
      .ok (w.1.warnings i now, w.1.set i ((w.1.protocols i).execHealthCheck [] now).2) := by
    have hwarned := (filterSockets_spec ((w.1.protocols i).nodup_considered now)
      (w.1.protocols i).clients).2.1
    simp only [Server.exec, hwarned, List.map_map]
    rfl
  exact h.step ⟨hnow, .execHealthCheck i, trivial, trivial, hexec⟩

theorem Watched.struck (h : Watched timeout history w) {now socket : ℤ}
    (hclient : socket ∈ (w.1.protocols i).clients) (hdue : Due timeout history i now socket) :
    Struck socket (history ++ w.1.warnings i now) := by
  have hes : ∀ e ∈ w.1.warnings i now, ¬EndsStrike socket e := by
    intro e he
    obtain ⟨socket', -, rfl⟩ := List.mem_map.mp he
    exact not_endsStrike_warned _ _
  by_cases hspared : ClientInfos.spared (w.1.protocols i).clients socket = true
  · have hwarned : socket ∈ (w.1.protocols i).warned now :=
      List.mem_filter.mpr ⟨h.considered.mpr hdue, hspared⟩
    exact Since.of_mem (List.mem_map_of_mem hwarned) rfl hes
  · exact (h.spared.mp (by simpa using hspared) hclient).append hes

variable {balancerIndex : Fin k → ℕ} {maxCount : ℕ} {clock : ℤ}

/-- **What a health check selects**: the sockets with an old update at its protocol, but of its
clients only those that have been warned and have not been heard of since. -/
theorem selected_iff
    (hr : Run (ClockedStep b shot callback n) (start timeout balancerIndex maxCount, clock) history w)
    (i : Fin k) (now socket : ℤ) :
    socket ∈ ((w.1.protocols i).execHealthCheck [] now).1 ↔
      Due timeout history i now socket ∧
        (socket ∈ (w.1.protocols i).clients → Struck socket history) := by
  have h := Run.watched (watched_start timeout balancerIndex maxCount clock) hr
  exact h.selected

/-- A server with one client, added to `i` at 0. -/
def sampleLone (i : Fin 2) : Server 2 := (start 10 (fun i => (i : ℕ)) 2).add i (.make 5 25 ⟨0, 0⟩) 0

theorem run_lone : Run (ClockedStep ⟨true, .little⟩ .multi pollCallback 106)
    (start 10 (fun i : Fin 2 => (i : ℕ)) 2, 0) [.accepted 5, .updated 0 5 0] (sampleLone 0, 0) :=
  .next .start ⟨le_rfl, .add 0 (.make 5 25 ⟨0, 0⟩), fun _ => Keyed.not_mem_empty _, ⟨5, 25, ⟨0, 0⟩, rfl⟩, rfl⟩

/-- The first check, at 10, warns the client. -/
theorem selected_iff_lone : (5 : ℤ) ∉ (((sampleLone 0).protocols 0).execHealthCheck [] 10).1 := by
  rw [selected_iff run_lone 0 10 5]
  rintro ⟨-, hstruck⟩
  obtain ⟨e, he, heq⟩ : ∃ e ∈ [Event.accepted (k := 2) 5, .updated 0 5 0], e = .warned 5 := by
    obtain ⟨before, e, after, hhistory, he, -⟩ := hstruck (by decide)
    exact ⟨e, by rw [hhistory]; simp, he⟩
  subst heq
  exact absurd he (by decide)

/-- **Silence is fatal.** A client that a check of its protocol finds due, and that is not heard of
afterwards, is selected by every later check that finds it due, wherever it has been moved. -/
theorem silent_selected
    (hr : Run (ClockedStep b shot callback n) (start timeout balancerIndex maxCount, clock) history w)
    {i : Fin k} {now socket : ℤ} (hnow : w.2 ≤ now) (hclient : socket ∈ (w.1.protocols i).clients)
    (hdue : Due timeout history i now socket) {more : List (Event k)}
    (hr' : Run (ClockedStep b shot callback n)
      (w.1.set i ((w.1.protocols i).execHealthCheck [] now).2, now) more w')
    (hsilent : ∀ e ∈ more, ¬EndsStrike socket e) {j : Fin k} {later : ℤ}
    (hdue' : Due timeout (history ++ more) j later socket) :
    socket ∈ ((w'.1.protocols j).execHealthCheck [] later).1 := by
  have h : Watched timeout history w := Run.watched (watched_start timeout balancerIndex maxCount clock) hr
  have h' := Run.watched (h.checked hnow i) hr'
  refine h'.selected.mpr ⟨?_, fun _ => (h.struck hclient hdue).append hsilent⟩
  obtain ⟨t, hmem, hle⟩ := hdue'
  refine ⟨t, ?_, hle⟩
  rw [List.append_assoc, List.mem_append, List.mem_append]
  exact (List.mem_append.mp hmem).imp_right Or.inr

/-- The client is warned at 10, moved at 12, and selected at 22 where it has been moved. -/
theorem silent_selected_moved :
    (5 : ℤ) ∈ (((((sampleLone 0).set 0 (((sampleLone 0).protocols 0).execHealthCheck [] 10).2).move 0 1 5
      12).protocols 1).execHealthCheck [] 22).1 := by
  have hmove : Run (ClockedStep ⟨true, .little⟩ .multi pollCallback 106)
      ((sampleLone 0).set 0 (((sampleLone 0).protocols 0).execHealthCheck [] 10).2, 10) [.updated 1 5 12]
      (((sampleLone 0).set 0 (((sampleLone 0).protocols 0).execHealthCheck [] 10).2).move 0 1 5 12, 12) :=
    .next .start ⟨by decide, .move 0 1 5, trivial, trivial, rfl⟩
  exact silent_selected run_lone (by decide) (by decide) ⟨0, by decide, by decide⟩ hmove
    (fun e he => List.mem_singleton.mp he ▸ not_endsStrike_updated _ _ _ _) ⟨12, by decide, by decide⟩

end Runs

end Server

end PollServer
