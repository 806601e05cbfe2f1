import PollServer.Serve.Load

/-! The sockets that a health check considers, against the history of a protocol: when its
clients were added and when they were read from. -/

namespace PollServer

open Lib

/-- The updates of the timestamps of protocol `i`. -/
def updates {k : ℕ} (i : Fin k) (history : List (Event k)) : List (ℤ × ℤ) :=
  history.filterMap fun
    | .updated j socket time => if j = i then some (socket, time) else none
    | _ => none

/-- `last(s)`, the time of the latest update of `socket`. -/
def lastUpdate (us : List (ℤ × ℤ)) (socket : ℤ) : Option ℤ :=
  (us.reverse.find? fun u => u.1 = socket).map Prod.snd

theorem updates_append {k : ℕ} (i : Fin k) (history es : List (Event k)) :
    updates i (history ++ es) = updates i history ++ updates i es := List.filterMap_append ..

theorem mem_updates {k : ℕ} {i : Fin k} {es : List (Event k)} {u : ℤ × ℤ}
    (h : u ∈ updates i es) : .updated i u.1 u.2 ∈ es := by
  obtain ⟨e, he, hu⟩ := List.mem_filterMap.mp h
  cases e with
  | updated j socket time =>
    dsimp only at hu
    by_cases hj : j = i
    · rw [if_pos hj, Option.some.injEq] at hu
      rwa [← hu, ← hj]
    · rw [if_neg hj] at hu
      cases hu
  | _ => cases hu

section Sorted

/-- The updates are in the order of their times. -/
def Sorted (us : List (ℤ × ℤ)) : Prop := us.Pairwise fun u u' => u.2 ≤ u'.2

theorem lastUpdate_eq {us : List (ℤ × ℤ)} (hs : Sorted us) {socket t : ℤ}
    (h : lastUpdate us socket = some t) :
    (socket, t) ∈ us ∧ ∀ t', (socket, t') ∈ us → t' ≤ t := by
  induction us using List.reverseRecOn with
  | nil => simp [lastUpdate] at h
  | append_singleton us u ih =>
    obtain ⟨hus, -, hle⟩ := List.pairwise_append.mp hs
    rw [lastUpdate, List.reverse_append] at h
    by_cases hu : u.1 = socket
    · have ht : u.2 = t := by simpa [hu] using h
      subst hu ht
      refine ⟨by simp, fun t' ht' => ?_⟩
      rcases List.mem_append.mp ht' with ht' | ht'
      · exact hle _ ht' _ (List.mem_singleton_self _)
      · rw [List.mem_singleton] at ht'
        exact (congrArg Prod.snd ht').le
    · have h' : lastUpdate us socket = some t := by simpa [hu, lastUpdate] using h
      obtain ⟨hmem, hmax⟩ := ih hus h'
      refine ⟨List.mem_append_left _ hmem, fun t' ht' => ?_⟩
      rcases List.mem_append.mp ht' with ht' | ht'
      · exact hmax t' ht'
      · rw [List.mem_singleton] at ht'
        exact absurd (congrArg Prod.fst ht').symm hu

theorem exists_lastUpdate {us : List (ℤ × ℤ)} {socket t : ℤ} (h : (socket, t) ∈ us) :
    ∃ t', lastUpdate us socket = some t' := by
  cases hf : us.reverse.find? fun u => u.1 = socket with
  | some u => exact ⟨u.2, by rw [lastUpdate, hf]; rfl⟩
  | none =>
    have hnone := List.find?_eq_none.mp hf (socket, t) (List.mem_reverse.mpr h)
    simp at hnone

theorem mem_takeWhile_sorted {l : List (Node ℤ ℤ)} (hs : l.Pairwise fun a a' => a.second ≤ a'.second)
    {timeout now : ℤ} {node : Node ℤ ℤ} :
    node ∈ l.takeWhile (fun a => ¬(now - a.second < timeout)) ↔
      node ∈ l ∧ timeout ≤ now - node.second := by
  induction l with
  | nil => simp
  | cons a l ih =>
    rw [List.pairwise_cons] at hs
    by_cases ha : now - a.second < timeout
    · rw [List.takeWhile_cons_of_neg (by simpa using ha)]
      apply iff_of_false List.not_mem_nil
      rintro ⟨hmem, hle⟩
      rcases List.mem_cons.mp hmem with rfl | hmem
      · omega
      · have := hs.1 _ hmem
        omega
    · rw [List.takeWhile_cons_of_pos (by simpa using ha), List.mem_cons, List.mem_cons, ih hs.2]
      constructor
      · rintro (rfl | ⟨hmem, hle⟩)
        · exact ⟨Or.inl rfl, by omega⟩
        · exact ⟨Or.inr hmem, hle⟩
      · rintro ⟨rfl | hmem, hle⟩
        · exact Or.inl rfl
        · exact Or.inr ⟨hmem, hle⟩

theorem mem_considered {p : ServerLearnProtocol} (hs : Sorted p.mostRecentTimestamps.pairs)
    {socket now : ℤ} : socket ∈ p.considered now ↔
      ∃ t, (socket, t) ∈ p.mostRecentTimestamps.pairs ∧ p.timeout ≤ now - t := by
  have hlist : p.mostRecentTimestamps.timestamps.list.Pairwise fun a a' => a.second ≤ a'.second := by
    rw [Sorted, MostRecentTimestamps.pairs, List.pairwise_map] at hs
    exact hs
  have hpairs : ∀ t, (socket, t) ∈ p.mostRecentTimestamps.pairs ↔
      ∃ node ∈ p.mostRecentTimestamps.timestamps.list, node.first = socket ∧ node.second = t := by
    simp [MostRecentTimestamps.pairs]
  unfold ServerLearnProtocol.considered
  split_ifs with he
  · rw [MostRecentTimestamps.size_eq, List.length_eq_zero_iff] at he
    simp [he]
  · rw [MostRecentTimestamps.getSocketsLessThanTimestamp, MostRecentTimestamps.mem_foldl_insert]
    simp only [List.not_mem_nil, false_or, mem_takeWhile_sorted hlist, hpairs]
    constructor
    · rintro ⟨node, ⟨hmem, hle⟩, rfl⟩
      exact ⟨node.second, ⟨node, hmem, rfl, rfl⟩, hle⟩
    · rintro ⟨t, ⟨node, hmem, rfl, rfl⟩, hle⟩
      exact ⟨node, ⟨hmem, hle⟩, rfl⟩

end Sorted

/-- The updates `us` are put behind those of the protocol, and the clients it has gained
are among them. -/
structure Stamped (p p' : ServerLearnProtocol) (us : List (ℤ × ℤ)) : Prop where
  timeout : p'.timeout = p.timeout
  unmapped : p.mostRecentTimestamps.Unmapped → p'.mostRecentTimestamps.Unmapped
  pairs : p.mostRecentTimestamps.Unmapped →
    p'.mostRecentTimestamps.pairs = p.mostRecentTimestamps.pairs ++ us
  members : ∀ socket ∈ p'.clients, socket ∈ p.clients ∨ ∃ t, (socket, t) ∈ us

namespace Stamped

variable {p p' p'' : ServerLearnProtocol} {us us' : List (ℤ × ℤ)}

theorem of_eq (ht : p'.timeout = p.timeout)
    (hm : p.mostRecentTimestamps.Unmapped → p'.mostRecentTimestamps = p.mostRecentTimestamps)
    (hc : ∀ socket ∈ p'.clients, socket ∈ p.clients) : Stamped p p' [] where
  timeout := ht
  unmapped h := by rwa [hm h]
  pairs h := by rw [hm h, List.append_nil]
  members socket hs := Or.inl (hc socket hs)

theorem refl (p : ServerLearnProtocol) : Stamped p p [] := .of_eq rfl (fun _ => rfl) fun _ h => h

theorem trans (h : Stamped p p' us) (h' : Stamped p' p'' us') : Stamped p p'' (us ++ us') where
  timeout := h'.timeout.trans h.timeout
  unmapped hu := h'.unmapped (h.unmapped hu)
  pairs hu := by rw [h'.pairs (h.unmapped hu), h.pairs hu, List.append_assoc]
  members socket hs := by
    rcases h'.members socket hs with hs | ⟨t, ht⟩
    · rcases h.members socket hs with hs | ⟨t, ht⟩
      · exact Or.inl hs
      · exact Or.inr ⟨t, List.mem_append_left _ ht⟩
    · exact Or.inr ⟨t, List.mem_append_right _ ht⟩

theorem undisturbed (h : p.Undisturbed p') : Stamped p p' [] :=
  .of_eq h.timeout (fun _ => h.timestamps) fun socket hs => by rwa [h.clients] at hs

theorem checked {now : ℤ} {selected selected' : List ℤ}
    (h : p.Checked now selected (selected', p')) : Stamped p p' [] := by
  refine .of_eq h.timeout (fun _ => h.timestamps) fun socket hs => ?_
  rwa [Keyed.mem_def, h.clients.keys fun _ _ ha => ha.socket] at hs

theorem add (p : ServerLearnProtocol) (balancer : Priority) (c : ClientInfo) (time : ℤ) :
    Stamped p (p.add balancer c time).1 [(c.socket, time)] where
  timeout := rfl
  unmapped h := MostRecentTimestamps.unmapped_updateSingle h _ _
  pairs h := MostRecentTimestamps.pairs_updateSingle h _ _
  members socket hs := by
    rcases (Keyed.mem_insert _).mp hs with rfl | hs
    · exact Or.inr ⟨time, List.mem_singleton_self _⟩
    · exact Or.inl hs

theorem pollRead {n : ℕ} {time : ℤ} {v : Polled n} (h : p.Received time p' v) :
    Stamped p p' (v.socketsWeReadAt.map fun socket => (socket, time)) where
  timeout := h.timeout
  unmapped hu := by
    rw [h.timestamps]
    exact (MostRecentTimestamps.updateFor_spec hu _ _).1
  pairs hu := by
    rw [h.timestamps]
    exact (MostRecentTimestamps.updateFor_spec hu _ _).2
  members socket hs := by
    rw [Keyed.mem_def, h.clients.keys fun _ _ ha => ha.socket] at hs
    exact Or.inl hs

theorem closeSocketConnections (p : ServerLearnProtocol) (balancer : Priority)
    (sockets : List ℤ) : Stamped p (p.closeSocketConnections balancer sockets).2.2.1 [] := by
  have hkept := (kept_closeSocketConnections p balancer sockets).members
  refine .of_eq ?_ (fun hu => ?_) hkept
  · simp only [ServerLearnProtocol.closeSocketConnections]
    split_ifs <;> rfl
  · simp only [ServerLearnProtocol.closeSocketConnections]
    split_ifs
    · rfl
    · exact MostRecentTimestamps.remove_eq hu _

theorem removeOldest (p : ServerLearnProtocol) (balancer : Priority) (socket : ℤ)
    (now : Timespec) : Stamped p (p.removeOldestClientAndReturn balancer socket now).2.1 [] :=
  .of_eq rfl (fun hu => MostRecentTimestamps.removeSingle_eq hu _)
    (kept_removeOldest p balancer socket now).members

end Stamped

namespace Server

variable {k n : ℕ}

theorem stamped_setBoth {s : Server k} {i : Fin k} {r : ServerLearnProtocol × Priority}
    {us : List (ℤ × ℤ)} (h : Stamped (s.protocols i) r.1 us) (j : Fin k) :
    Stamped (s.protocols j) ((s.setBoth i r).protocols j) (if j = i then us else []) := by
  by_cases hj : j = i
  · rw [if_pos hj, hj, setBoth_same]
    exact h
  · rw [if_neg hj, setBoth_other _ _ hj]
    exact .refl _

theorem updates_single (i j : Fin k) (socket time : ℤ) :
    updates j [.updated i socket time] = if j = i then [(socket, time)] else [] := by
  by_cases h : j = i
  · simp [updates, h]
  · simp [updates, h, Ne.symm h]

theorem updates_read (i j : Fin k) (sockets : List ℤ) (time : ℤ) :
    updates j (sockets.map (.updated i · time)) =
      if j = i then sockets.map fun socket => (socket, time) else [] := by
  by_cases h : j = i
  · simp [updates, List.filterMap_map, h]
  · simp [updates, List.filterMap_map, h, Ne.symm h]

theorem updates_received (j : Fin k) (ps : List NetworkPacket) :
    updates j (ps.map .received) = [] := by
  simp [updates, List.filterMap_map]

theorem updates_warned (j : Fin k) (sockets : List ℤ) :
    updates j (sockets.map .warned) = [] := by
  simp [updates, List.filterMap_map]

section Runs

variable (b : Build) (shot : Shot) (callback : NetworkPacket → ClientInfo → NetworkPacket)

/-- **What an operation does to the timestamps**: it puts its updates behind them. -/
theorem exec_stamped {s s' : Server k} {time : ℤ} {op : Op k n} {es : List (Event k)}
    (h : s.exec b shot callback time op = .ok (es, s')) (j : Fin k) :
    Stamped (s.protocols j) (s'.protocols j) (updates j es) := by
  have hnone : ∀ {i : Fin k} {r : ServerLearnProtocol × Priority},
      Stamped (s.protocols i) r.1 [] → Stamped (s.protocols j) ((s.setBoth i r).protocols j) [] := by
    intro i r hr
    have hset := stamped_setBoth hr j
    rwa [ite_self] at hset
  cases op with
  | add i c =>
    cases h
    have hu : updates j [.accepted c.socket, .updated i c.socket time] =
        if j = i then [(c.socket, time)] else [] := updates_single i j c.socket time
    rw [hu]
    exact stamped_setBoth (.add _ _ c time) j
  | pollRead i buffer events =>
    obtain ⟨p, v, hspec, rfl, rfl⟩ := exec_pollRead h
    rw [updates_append, updates_received, List.nil_append, updates_read]
    exact stamped_setBoth (r := (p, s.balancer)) (.pollRead hspec) j
  | closeSocketConnections i sockets =>
    cases h
    exact hnone (.closeSocketConnections _ _ _)
  | removeOldest i socket =>
    cases h
    exact hnone (.removeOldest _ _ _ _)
  | move i l socket =>
    obtain ⟨rfl, rfl⟩ | ⟨c, hc, rfl, rfl⟩ := exec_move h
    · exact .refl _
    · rw [updates_single, move, removeOldest_eq hc]
      exact (hnone (.removeOldest _ _ _ _)).trans (stamped_setBoth (.add _ _ c time) j)
  | execHealthCheck i =>
    obtain ⟨_, p, hspec, rfl, rfl⟩ := exec_execHealthCheck h
    rw [updates_warned]
    exact hnone (r := (p, s.balancer)) (.checked hspec)
  | execute i =>
    obtain ⟨p, hp, rfl, rfl⟩ := exec_execute h
    exact hnone (r := (p, s.balancer)) (.undisturbed hp)
  | write i sends =>
    obtain ⟨p, hp, rfl, rfl⟩ := exec_write h
    exact hnone (r := (p, s.balancer)) (.undisturbed hp)

theorem exec_time {s s' : Server k} {time : ℤ} {op : Op k n} {es : List (Event k)}
    (h : s.exec b shot callback time op = .ok (es, s')) {j : Fin k} {socket t : ℤ}
    (hu : .updated j socket t ∈ es) : t = time := by
  cases op with
  | add i c =>
    cases h
    simp only [List.mem_cons, reduceCtorEq, Event.updated.injEq, List.not_mem_nil, or_false,
      false_or] at hu
    exact hu.2.2
  | pollRead i buffer events =>
    obtain ⟨p, v, -, rfl, rfl⟩ := exec_pollRead h
    rcases List.mem_append.mp hu with hu | hu
    · obtain ⟨packet, -, he⟩ := List.mem_map.mp hu
      cases he
    · obtain ⟨socket', -, he⟩ := List.mem_map.mp hu
      cases he
      rfl
  | closeSocketConnections i sockets =>
    cases h
    exact absurd hu List.not_mem_nil
  | removeOldest i socket =>
    cases h
    exact absurd hu List.not_mem_nil
  | move i l socket =>
    obtain ⟨rfl, rfl⟩ | ⟨c, -, rfl, rfl⟩ := exec_move h
    · exact absurd hu List.not_mem_nil
    · cases List.mem_singleton.mp hu
      rfl
  | execHealthCheck i =>
    obtain ⟨_, p, -, rfl, rfl⟩ := exec_execHealthCheck h
    obtain ⟨socket', -, he⟩ := List.mem_map.mp hu
    cases he
  | execute i =>
    obtain ⟨p, -, rfl, rfl⟩ := exec_execute h
    exact absurd hu List.not_mem_nil
  | write i sends =>
    obtain ⟨p, -, rfl, rfl⟩ := exec_write h
    exact absurd hu List.not_mem_nil

/-- A step of a server with its clock, which does not go back. -/
def TimedStep (n : ℕ) (w : Server k × ℤ) (es : List (Event k)) (w' : Server k × ℤ) : Prop :=
  w.2 ≤ w'.2 ∧ ∃ op : Op k n, w.1.exec b shot callback w'.2 op = .ok (es, w'.1)

/-- The timestamps of each protocol are the history of its updates. -/
structure Recorded (history : List (Event k)) (w : Server k × ℤ) : Prop where
  unmapped : ∀ i, (w.1.protocols i).mostRecentTimestamps.Unmapped
  pairs : ∀ i, (w.1.protocols i).mostRecentTimestamps.pairs = updates i history
  sorted : ∀ i, Sorted (updates i history)
  past : ∀ i, ∀ u ∈ updates i history, u.2 ≤ w.2
  members : ∀ i, ∀ socket ∈ (w.1.protocols i).clients, ∃ t, (socket, t) ∈ updates i history

theorem recorded_start (timeout : ℤ) (balancerIndex : Fin k → ℕ) (maxCount : ℕ) (clock : ℤ) :
    Recorded [] (start timeout balancerIndex maxCount, clock) where
  unmapped _ := rfl
  pairs _ := rfl
  sorted _ := List.Pairwise.nil
  past _ _ hu := absurd hu List.not_mem_nil
  members _ socket hs := absurd hs (Keyed.not_mem_empty socket)

theorem Recorded.step {history es : List (Event k)} {w w' : Server k × ℤ}
    (h : Recorded history w) (hs : TimedStep b shot callback n w es w') :
    Recorded (history ++ es) w' := by
  obtain ⟨hle, op, hexec⟩ := hs
  have hstamped := exec_stamped b shot callback hexec
  have htime : ∀ i, ∀ u ∈ updates i es, u.2 = w'.2 := fun i u hu =>
    exec_time b shot callback hexec (mem_updates hu)
  refine ⟨fun i => ?_, fun i => ?_, fun i => ?_, fun i u hu => ?_, fun i socket hsocket => ?_⟩
  · exact (hstamped i).unmapped (h.unmapped i)
  · rw [(hstamped i).pairs (h.unmapped i), h.pairs i, updates_append]
  · rw [updates_append]
    refine List.pairwise_append.mpr ⟨h.sorted i, ?_, fun u hu u' hu' => ?_⟩
    · apply List.pairwise_of_forall_mem_list
      intro u hu u' hu'
      rw [htime i u hu, htime i u' hu']
    · rw [htime i u' hu']
      exact (h.past i u hu).trans hle
  · rw [updates_append] at hu
    rcases List.mem_append.mp hu with hu | hu
    · exact (h.past i u hu).trans hle
    · exact (htime i u hu).le
  · rw [updates_append]
    rcases (hstamped i).members socket hsocket with hsocket | ⟨t, ht⟩
    · obtain ⟨t, ht⟩ := h.members i socket hsocket
      exact ⟨t, List.mem_append_left _ ht⟩
    · exact ⟨t, List.mem_append_right _ ht⟩

theorem Run.recorded {timeout : ℤ} {balancerIndex : Fin k → ℕ} {maxCount : ℕ} {clock : ℤ}
    {history : List (Event k)} {w : Server k × ℤ}
    (hr : Run (TimedStep b shot callback n) (start timeout balancerIndex maxCount, clock) history w) :
    Recorded history w :=
  hr.invariant (recorded_start timeout balancerIndex maxCount clock) fun _ _ _ _ h hs =>
    h.step b shot callback hs

/-- `socket` is a client of protocol `i` that was last updated at least `timeout` ago. -/
def Idle (s : Server k) (history : List (Event k)) (i : Fin k) (now socket : ℤ) : Prop :=
  socket ∈ (s.protocols i).clients ∧
    ∃ t, lastUpdate (updates i history) socket = some t ∧ (s.protocols i).timeout ≤ now - t

/-- **Idle clients.** A health check considers exactly the idle clients as long as every
socket with an old update is still a client and has no recent update. -/
theorem considered_idle {timeout : ℤ} {balancerIndex : Fin k → ℕ} {maxCount : ℕ} {clock : ℤ}
    {history : List (Event k)} {w : Server k × ℤ}
    (hr : Run (TimedStep b shot callback n) (start timeout balancerIndex maxCount, clock) history w)
    (i : Fin k) (now : ℤ) :
    (∀ socket, socket ∈ (w.1.protocols i).considered now ↔ w.1.Idle history i now socket) ↔
      ∀ socket t, (socket, t) ∈ updates i history → (w.1.protocols i).timeout ≤ now - t →
        socket ∈ (w.1.protocols i).clients ∧
          ∀ t', (socket, t') ∈ updates i history → (w.1.protocols i).timeout ≤ now - t' := by
  have h := Run.recorded b shot callback hr
  have hsorted := h.sorted i
  have hpairs := h.pairs i
  have hconsidered : ∀ socket, socket ∈ (w.1.protocols i).considered now ↔
      ∃ t, (socket, t) ∈ updates i history ∧ (w.1.protocols i).timeout ≤ now - t := by
    intro socket
    rw [← hpairs]
    exact mem_considered (by rw [hpairs]; exact hsorted)
  constructor
  · intro hidle socket t hmem hle
    obtain ⟨hclient, t0, hlast, hle0⟩ := (hidle socket).mp ((hconsidered socket).mpr ⟨t, hmem, hle⟩)
    refine ⟨hclient, fun t' ht' => ?_⟩
    have := (lastUpdate_eq hsorted hlast).2 t' ht'
    omega
  · intro hold socket
    rw [hconsidered]
    constructor
    · rintro ⟨t, hmem, hle⟩
      obtain ⟨hclient, hall⟩ := hold socket t hmem hle
      obtain ⟨t0, hlast⟩ := exists_lastUpdate hmem
      exact ⟨hclient, t0, hlast, hall t0 (lastUpdate_eq hsorted hlast).1⟩
    · rintro ⟨-, t, hlast, hle⟩
      exact ⟨t, (lastUpdate_eq hsorted hlast).1, hle⟩

/-- A client that was added ten seconds ago. -/
theorem considered_idle_added :
    (5 : ℤ) ∈ (((start 10 (fun i : Fin 1 => (i : ℕ)) 1).add 0 (.make 5 25 ⟨0, 0⟩) 0).protocols
      0).considered 10 := by
  have hr : Run (TimedStep ⟨true, .little⟩ .multi pollCallback 106)
      (start 10 (fun i : Fin 1 => (i : ℕ)) 1, 0) _
      ((start 10 (fun i : Fin 1 => (i : ℕ)) 1).add 0 (.make 5 25 ⟨0, 0⟩) 0, 0) :=
    .next .start ⟨le_rfl, .add 0 (.make 5 25 ⟨0, 0⟩), rfl⟩
  refine ((considered_idle ⟨true, .little⟩ .multi pollCallback hr 0 10).mpr ?_ 5).mpr
    ⟨by decide, 0, by decide, by decide⟩
  intro socket t hmem _
  have hupdates : (socket, t) ∈ [((5 : ℤ), (0 : ℤ))] := hmem
  rw [List.mem_singleton, Prod.mk.injEq] at hupdates
  obtain ⟨rfl, rfl⟩ := hupdates
  refine ⟨by decide, fun t' ht' => ?_⟩
  have hupdates : ((5 : ℤ), t') ∈ [((5 : ℤ), (0 : ℤ))] := ht'
  rw [List.mem_singleton, Prod.mk.injEq] at hupdates
  rw [hupdates.2]
  decide

/-- A client that was added at 0 and closed is considered at 10. -/
theorem considered_stale :
    ¬∀ (k n : ℕ) (b : Build) (shot : Shot) (callback : NetworkPacket → ClientInfo → NetworkPacket)
      (timeout : ℤ) (balancerIndex : Fin k → ℕ) (maxCount : ℕ) (clock : ℤ)
      (history : List (Event k)) (w : Server k × ℤ) (i : Fin k) (now : ℤ),
      Run (TimedStep b shot callback n) (start timeout balancerIndex maxCount, clock) history w →
        w.2 ≤ now → ∀ socket, socket ∈ (w.1.protocols i).considered now ↔
          w.1.Idle history i now socket := by
  intro h
  let s0 : Server 1 := start 10 (fun i => (i : ℕ)) 1
  let s1 := s0.add 0 (.make 5 25 ⟨0, 0⟩) 0
  have h1 : Run (TimedStep ⟨true, .little⟩ .multi pollCallback 106) (s0, 0) _ (s1, 0) :=
    .next .start ⟨le_rfl, .add 0 (.make 5 25 ⟨0, 0⟩), rfl⟩
  have h2 : Run (TimedStep ⟨true, .little⟩ .multi pollCallback 106) (s0, 0) _
      (s1.setBoth 0 ((s1.protocols 0).closeSocketConnections s1.balancer [5]).2.2, 0) :=
    .next h1 ⟨le_rfl, .closeSocketConnections 0 [5], rfl⟩
  have hidle := ((h 1 106 _ _ _ 10 _ 1 0 _ _ 0 10 h2 (by decide)) 5).mp (by decide)
  exact absurd hidle.1 (by decide)

end Runs

end Server

end PollServer
