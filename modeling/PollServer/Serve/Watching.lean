import PollServer.Serve.Descriptors

/-! What the kernel can report to a polling thread: there is room for every client's event,
and no event is about a client of the descriptor -1, which nothing then takes away. -/

namespace PollServer

open Lib ClientInfos

section Room

variable {n : ℕ} {b : Build} {shot : Shot}

theorem pollEvent_room {v v' : Polled n} {event : EpollEvent} (h : pollEvent b shot v event = .ok v') :
    v'.clients.pollInEvents = v.clients.pollInEvents ∧
      v'.clients.updateIssued = v.clients.updateIssued := by
  rcases pollEvent_outcome h with rfl | rfl | ⟨c, hread⟩
  · exact ⟨rfl, rfl⟩
  · exact ⟨rfl, rfl⟩
  · exact (readClient_leaves hread).2

theorem onReadPoll_room {cs : ClientInfos} {buffer : Buffer n} {events : List EpollEvent}
    {v : Polled n} (h : onReadPoll b shot cs buffer events = .ok v) :
    v.clients.pollInEvents = cs.pollInEvents ∧ v.clients.updateIssued = cs.updateIssued := by
  rcases hfold : (events.take cs.pollInEvents).foldlM (pollEvent b shot)
    (⟨cs, buffer, [], [], [], []⟩ : Polled n) with e | v'
  · rw [onReadPoll, hfold] at h
    cases h
  · rw [onReadPoll, hfold] at h
    cases h
    exact foldlM_ok (R := fun v v' : Polled n =>
      v'.clients.pollInEvents = v.clients.pollInEvents ∧
        v'.clients.updateIssued = v.clients.updateIssued)
      (fun _ => ⟨rfl, rfl⟩) (fun _ _ _ h h' => ⟨h'.1.trans h.1, h'.2.trans h.2⟩)
      (fun _ _ _ => pollEvent_room) hfold

variable (p : ServerLearnProtocol)

theorem removeOldest_room (balancer : Priority) (socket : ℤ) (now : Timespec) :
    let p' := (p.removeOldestClientAndReturn balancer socket now).2.1
    p'.clientInfos.pollInEvents = p.clientInfos.pollInEvents ∧
      p'.clientInfos.updateIssued = p.clientInfos.updateIssued := by
  cases h : p.clientInfos.oldest socket with
  | none =>
    rw [removeOldest_none balancer h]
    exact ⟨rfl, rfl⟩
  | some c =>
    rw [removeOldest_some balancer h]
    exact ⟨rfl, rfl⟩

theorem execHealthCheck_room (now : ℤ) :
    let p' := (p.execHealthCheck [] now).2
    p'.clientInfos.pollInEvents = p.clientInfos.pollInEvents ∧
      p'.clientInfos.updateIssued = p.clientInfos.updateIssued := by
  simp only [ServerLearnProtocol.execHealthCheck]
  split_ifs <;> exact ⟨rfl, rfl⟩

theorem execute_room (cs : ClientInfos) (callback : NetworkPacket → ClientInfo → NetworkPacket) :
    (cs.execute callback).pollInEvents = cs.pollInEvents ∧
      (cs.execute callback).updateIssued = cs.updateIssued := by
  unfold execute
  split_ifs <;> exact ⟨rfl, rfl⟩

end Room

namespace Descriptors

variable {k : ℕ}

/-- The array of events is as long as there are clients, unless an update of it is due. -/
structure Roomy (polling : Polling) (cs : ClientInfos) : Prop where
  room : cs.updateIssued = false → cs.size ≤ cs.pollInEvents
  waited : ∀ events, polling = .waited events → events.length ≤ cs.pollInEvents

section Room

variable {cs cs' : ClientInfos} {polling : Polling}

theorem Roomy.of_eq (h : Roomy polling cs) (hs : cs'.size ≤ cs.size)
    (hp : cs'.pollInEvents = cs.pollInEvents) (hu : cs'.updateIssued = cs.updateIssued) :
    Roomy polling cs' where
  room hi := by
    rw [hp]
    exact hs.trans (h.room (hu ▸ hi))
  waited events he := by
    rw [hp]
    exact h.waited events he

theorem size_le_update (cs : ClientInfos) (h : Roomy polling cs) :
    cs.size ≤ cs.update.pollInEvents := by
  unfold update
  split_ifs with hu
  · exact le_max_right _ _
  · exact h.room (by simpa using hu)

theorem size_le_of_members (h : ∀ socket ∈ cs'.clientInfos, socket ∈ cs.clientInfos) :
    cs'.size ≤ cs.size := by
  have hkeys : cs'.clientInfos.keys.Subperm cs.clientInfos.keys :=
    List.subperm_of_subset cs'.clientInfos.nodup h
  simpa [size, Keyed.keys] using hkeys.length_le

theorem Roomy.of_keys (h : Roomy polling cs) (hk : cs'.clientInfos.keys = cs.clientInfos.keys)
    (hp : cs'.pollInEvents = cs.pollInEvents) (hu : cs'.updateIssued = cs.updateIssued) :
    Roomy polling cs' :=
  h.of_eq (size_le_of_members fun socket hs => by rwa [Keyed.mem_def, hk] at hs) hp hu

theorem size_keys (cs : ClientInfos) : cs.size = cs.clientInfos.keys.length :=
  (List.length_map _).symm

end Room

section Runs

variable {n : ℕ} {b : Build} {shot : Shot} {callback : NetworkPacket → ClientInfo → NetworkPacket}
  {w w' : Descriptors k} {es history : List Fate}

/-- There is room at every protocol. -/
def AllRoomy (w : Descriptors k) : Prop :=
  ∀ i, Roomy (w.polling i) (w.server.protocols i).clientInfos

/-- A step at one protocol has to leave room there. -/
theorem AllRoomy.step_at (h : w.AllRoomy) {i : Fin k} {r : ServerLearnProtocol × Priority}
    (hs : w'.server = w.server.setBoth i r) (hp : ∀ j, j ≠ i → w'.polling j = w.polling j)
    (hr : Roomy (w'.polling i) r.1.clientInfos) : w'.AllRoomy := by
  intro j
  by_cases hj : j = i
  · subst hj
    rw [hs, Server.setBoth_same]
    exact hr
  · rw [hs, Server.setBoth_other _ _ hj, hp j hj]
    exact h j

theorem AllRoomy.register (h : w.AllRoomy) (i : Fin k) (c : ClientInfo) (time : ℤ) :
    (w.register i c time).AllRoomy :=
  h.step_at (i := i) rfl (fun _ _ => rfl) ⟨nofun, (h i).waited⟩

theorem AllRoomy.setProtocol (h : w.AllRoomy) {i : Fin k} {p : ServerLearnProtocol}
    {polling : Polling} (hr : Roomy polling p.clientInfos) : (w.setProtocol i p polling).AllRoomy := by
  refine h.step_at (i := i) rfl (fun j hj => Function.update_of_ne hj _ _) ?_
  dsimp only [Descriptors.setProtocol]
  rw [Function.update_self]
  exact hr

theorem AllRoomy.step (h : w.AllRoomy) (hs : Step n b shot callback w es w') : w'.AllRoomy := by
  cases hs with
  | accept fd _ _ _ => exact h
  | add i fd weight now time _ => exact h.register i _ time
  | wait i events _ hr =>
    refine h.setProtocol ⟨fun _ => ?_, fun events' he => ?_⟩
    · have hsize : (w.updated i).clientInfos.size = (w.server.protocols i).clientInfos.size := by
        rw [size_keys, size_keys]
        exact congrArg List.length (keys_updated w i)
      rw [hsize]
      exact size_le_update _ (h i)
    · cases he
      exact hr.fits
  | read i events buffer v time _ hv =>
    obtain ⟨hroom, hissued⟩ := onReadPoll_room hv
    have hsize : v.clients.size = (w.server.protocols i).clientInfos.size := by
      rw [size_keys, size_keys]
      exact congrArg List.length (keys_read 0 hv)
    refine h.setProtocol ⟨fun hi => ?_, nofun⟩
    exact ((h i).of_eq hsize.le hroom hissued).room hi
  | close i sockets _ =>
    refine h.step_at (i := i) rfl (fun j hj => Function.update_of_ne hj _ _) ?_
    have hcs := closeSocketConnections_clientInfos (w.server.protocols i) w.server.balancer sockets
    have hkept := kept_closeSocketConnections (w.server.protocols i) w.server.balancer sockets
    have hroomy : Roomy .idle
        ((w.server.protocols i).closeSocketConnections w.server.balancer sockets).2.2.1.clientInfos := by
      refine ⟨?_, nofun⟩
      exact ((h i).of_eq (size_le_of_members hkept.members) (by rw [hcs]) (by rw [hcs])).room
    dsimp only [Descriptors.close]
    rw [Function.update_self]
    exact hroomy
  | pick maxIdx minIdx _ _ => exact h
  | look maxIdx minIdx _ _ => exact h
  | leave _ => exact h
  | take maxIdx minIdx socket now _ =>
    have hkept := kept_removeOldest (w.server.protocols maxIdx) w.server.balancer socket now
    obtain ⟨hroom, hissued⟩ := removeOldest_room (w.server.protocols maxIdx) w.server.balancer socket now
    exact h.step_at (i := maxIdx) rfl (fun _ _ => rfl)
      ((h maxIdx).of_eq (size_le_of_members hkept.members) hroom hissued)
  | give c minIdx time _ => exact h.register minIdx c time
  | check i now =>
    obtain ⟨hroom, hissued⟩ := execHealthCheck_room (w.server.protocols i) now
    exact h.setProtocol ((h i).of_keys (keys_check w i now) hroom hissued)
  | execute i =>
    obtain ⟨hroom, hissued⟩ := execute_room (w.server.protocols i).clientInfos callback
    exact h.setProtocol ((h i).of_keys (keys_execute w i) hroom hissued)
  | write i sends => exact h.setProtocol ((h i).of_eq le_rfl rfl rfl)

variable {timeout : ℤ} {balancerIndex : Fin k → ℕ} {maxCount : ℕ}

theorem Run.allRoomy
    (hr : Run (Step n b shot callback) (start timeout balancerIndex maxCount) history w) :
    w.AllRoomy :=
  hr.invariant (I := fun _ w => w.AllRoomy) (fun _ => ⟨fun _ => Nat.zero_le _, nofun⟩)
    fun _ _ _ _ h hs => h.step hs

/-- **No event is left out.** A polling thread goes over all that its wait has reported; its
array has room for every client of its protocol, and so for everything that is watched, unless
a client has been moved away. -/
theorem events_fit
    (hr : Run (Step n b shot callback) (start timeout balancerIndex maxCount) history w) (i : Fin k) :
    (∀ events, w.polling i = .waited events →
      events.take (w.server.protocols i).clientInfos.pollInEvents = events) ∧
    (w.clients i).entries.length ≤ (w.updated i).clientInfos.pollInEvents ∧
    ((∀ fd ∈ (w.ePollIn i).interest, fd ∈ w.clients i) →
      (w.ePollIn i).interest.length ≤ (w.updated i).clientInfos.pollInEvents) := by
  have h := Run.allRoomy hr i
  have hle := size_le_update _ h
  refine ⟨fun events he => List.take_of_length_le (h.waited events he), hle, fun hall => ?_⟩
  have hsub : (w.ePollIn i).interest.Subperm (w.clients i).keys :=
    List.subperm_of_subset (w.ePollIn i).nodup hall
  have hlength := hsub.length_le
  rw [Keyed.keys, List.length_map] at hlength
  exact hlength.trans hle

theorem events_fit_added : [(5 : ℤ)].length ≤ (sampleAdded.updated 0).clientInfos.pollInEvents :=
  (events_fit run_added 0).2.2 (by decide)

/-- The client of the descriptor -1 is somewhere. -/
def Stray (w : Descriptors k) : Prop := ∃ place, w.At (-1) place

/-- No thread has anything to close but what an event was about. -/
def Reported (w : Descriptors k) : Prop :=
  ∀ i, (∀ events, w.polling i = .waited events → ∀ event ∈ events, 0 ≤ event.fd) ∧
    ∀ sockets, w.polling i = .polled sockets → ∀ fd ∈ sockets, 0 ≤ fd

theorem Reported.setPolling (h : w.Reported) {i : Fin k} {polling : Polling}
    (hp : w'.polling = Function.update w.polling i polling)
    (he : ∀ events, polling = .waited events → ∀ event ∈ events, 0 ≤ event.fd)
    (hs : ∀ sockets, polling = .polled sockets → ∀ fd ∈ sockets, 0 ≤ fd) : w'.Reported := by
  intro j
  rw [hp]
  by_cases hj : j = i
  · subst hj
    rw [Function.update_self]
    exact ⟨he, hs⟩
  · rw [Function.update_of_ne hj]
    exact h j

theorem Reported.step (h : w.Reported) (hw : w.Sound) (hs : Step n b shot callback w es w') :
    w'.Reported := by
  cases hs with
  | wait i events _ hr =>
    refine h.setPolling (i := i) rfl (fun events' heq event he => ?_) nofun
    cases heq
    exact hw.nonneg _ (hw.interest i _ (hr.watched event he))
  | read i events buffer v time hp hv =>
    refine h.setPolling (i := i) rfl nofun fun sockets heq fd hfd => ?_
    cases heq
    obtain ⟨event, he, rfl⟩ := (onReadPoll_terminate hv).2 fd hfd
    exact (h i).1 events hp event he
  | close i sockets _ => exact h.setPolling (i := i) rfl nofun nofun
  | check i now => exact h.setPolling (i := i) rfl (h i).1 (h i).2
  | execute i => exact h.setPolling (i := i) rfl (h i).1 (h i).2
  | write i sends => exact h.setPolling (i := i) rfl (h i).1 (h i).2
  | _ => exact h

theorem stray_still (hat : ∀ fd place, w'.At fd place ↔ w.At fd place) : w'.Stray ↔ w.Stray :=
  exists_congr (hat (-1))

/-- **Nothing takes a client of the descriptor -1 away.** -/
theorem Stray.step (h : w.Stray) (hr : w.Reported) (hs : Step n b shot callback w es w') :
    w'.Stray := by
  cases hs with
  | accept fd hc _ _ =>
    obtain ⟨place, hp⟩ := h
    cases place with
    | client j => exact ⟨.client j, hp⟩
    | child => simp [At, hc] at hp
    | moved => exact ⟨.moved, hp⟩
  | add i fd weight now time hc =>
    obtain ⟨place, hp⟩ := h
    cases place with
    | client j => exact ⟨.client j, (clients_register rfl _ j).mpr (Or.inl hp)⟩
    | child =>
      refine ⟨.client i, (clients_register rfl _ i).mpr (Or.inr ⟨rfl, ?_⟩)⟩
      exact Option.some.inj (hp.symm.trans hc)
    | moved => exact ⟨.moved, hp⟩
  | wait i events _ _ => exact (stray_still (at_setProtocol (keys_updated w i) _)).mpr h
  | read i events buffer v time _ hv => exact (stray_still (at_setProtocol (keys_read time hv) _)).mpr h
  | close i sockets hpoll =>
    obtain ⟨place, hp⟩ := h
    cases place with
    | client j =>
      refine ⟨.client j, (clients_close w i sockets (-1) j).mpr ⟨hp, fun _ hmem => ?_⟩⟩
      exact absurd ((hr i).2 sockets hpoll (-1) hmem) (by decide)
    | child => exact ⟨.child, hp⟩
    | moved => exact ⟨.moved, hp⟩
  | pick maxIdx minIdx hm _ => exact (stray_still (at_setMoving (by simp [hm]) (by simp))).mpr h
  | look maxIdx minIdx hm _ => exact (stray_still (at_setMoving (by simp [hm]) (by simp))).mpr h
  | leave hm => exact (stray_still (at_setMoving hm (by simp))).mpr h
  | take maxIdx minIdx socket now hm =>
    obtain ⟨place, hp⟩ := h
    obtain ⟨c, hc, -, hclient⟩ := take_cases w maxIdx minIdx socket now
    cases place with
    | client j =>
      by_cases hj : j = maxIdx ∧ (-1 : ℤ) = c.socket
      · exact ⟨.moved, c, minIdx, hc, hj.2.symm⟩
      · exact ⟨.client j, (hclient (-1) j).mpr ⟨hp, hj⟩⟩
    | child => exact ⟨.child, hp⟩
    | moved =>
      obtain ⟨c', minIdx', hm', -⟩ := hp
      simp [hm] at hm'
  | give c minIdx time hm =>
    obtain ⟨place, hp⟩ := h
    cases place with
    | client j => exact ⟨.client j, (clients_register rfl _ j).mpr (Or.inl hp)⟩
    | child => exact ⟨.child, hp⟩
    | moved =>
      obtain ⟨c', minIdx', hm', hsocket⟩ := hp
      rw [hm] at hm'
      cases hm'
      exact ⟨.client minIdx, (clients_register rfl _ minIdx).mpr (Or.inr ⟨rfl, hsocket.symm⟩)⟩
  | check i now => exact (stray_still (at_setProtocol (keys_check w i now) _)).mpr h
  | execute i => exact (stray_still (at_setProtocol (keys_execute w i) _)).mpr h
  | write i sends =>
    exact (stray_still (at_setProtocol (p := ((w.server.protocols i).write b sends).2.2) rfl _)).mpr h

/-- **Only a protocol that turns out to be empty gives away a client of the descriptor -1.** -/
theorem Stray.origin (h : w'.Stray) (hs : Step n b shot callback w es w') :
    w.Stray ∨ ∃ maxIdx minIdx socket now, w' = w.take maxIdx minIdx socket now ∧
      (w.clients maxIdx).entries = [] := by
  cases hs with
  | accept fd _ _ h0 =>
    obtain ⟨place, hp⟩ := h
    cases place with
    | client j => exact Or.inl ⟨.client j, hp⟩
    | child =>
      obtain rfl : fd = -1 := Option.some.inj hp
      exact absurd h0 (by decide)
    | moved => exact Or.inl ⟨.moved, hp⟩
  | add i fd weight now time hc =>
    obtain ⟨place, hp⟩ := h
    cases place with
    | client j =>
      rcases (clients_register rfl _ j).mp hp with hp | ⟨-, hsocket⟩
      · exact Or.inl ⟨.client j, hp⟩
      · obtain rfl : fd = -1 := hsocket.symm
        exact Or.inl ⟨.child, hc⟩
    | child => exact absurd hp nofun
    | moved => exact Or.inl ⟨.moved, hp⟩
  | wait i events _ _ => exact Or.inl ((stray_still (at_setProtocol (keys_updated w i) _)).mp h)
  | read i events buffer v time _ hv =>
    exact Or.inl ((stray_still (at_setProtocol (keys_read time hv) _)).mp h)
  | close i sockets _ =>
    obtain ⟨place, hp⟩ := h
    cases place with
    | client j => exact Or.inl ⟨.client j, ((clients_close w i sockets (-1) j).mp hp).1⟩
    | child => exact Or.inl ⟨.child, hp⟩
    | moved => exact Or.inl ⟨.moved, hp⟩
  | pick maxIdx minIdx hm _ =>
    exact Or.inl ((stray_still (at_setMoving (by simp [hm]) (by nofun))).mp h)
  | look maxIdx minIdx hm _ =>
    exact Or.inl ((stray_still (at_setMoving (by simp [hm]) (by nofun))).mp h)
  | leave hm => exact Or.inl ((stray_still (at_setMoving hm (by nofun))).mp h)
  | take maxIdx minIdx socket now _ =>
    obtain ⟨c, hc, hplace, hclient⟩ := take_cases w maxIdx minIdx socket now
    rcases hplace with ⟨hnone, -⟩ | hmem
    · exact Or.inr ⟨maxIdx, minIdx, socket, now, rfl, hnone⟩
    obtain ⟨place, hp⟩ := h
    cases place with
    | client j => exact Or.inl ⟨.client j, ((hclient (-1) j).mp hp).1⟩
    | child => exact Or.inl ⟨.child, hp⟩
    | moved =>
      obtain ⟨c', minIdx', hm', hsocket⟩ := hp
      rw [hc] at hm'
      cases hm'
      exact Or.inl ⟨.client maxIdx, show (-1 : ℤ) ∈ w.clients maxIdx from hsocket ▸ hmem⟩
  | give c minIdx time hm =>
    obtain ⟨place, hp⟩ := h
    cases place with
    | client j =>
      rcases (clients_register rfl _ j).mp hp with hp | ⟨-, hsocket⟩
      · exact Or.inl ⟨.client j, hp⟩
      · exact Or.inl ⟨.moved, c, minIdx, hm, hsocket.symm⟩
    | child => exact Or.inl ⟨.child, hp⟩
    | moved =>
      obtain ⟨c', minIdx', hm', -⟩ := hp
      exact absurd hm' nofun
  | check i now => exact Or.inl ((stray_still (at_setProtocol (keys_check w i now) _)).mp h)
  | execute i => exact Or.inl ((stray_still (at_setProtocol (keys_execute w i) _)).mp h)
  | write i sends =>
    exact Or.inl ((stray_still
      (at_setProtocol (p := ((w.server.protocols i).write b sends).2.2) rfl _)).mp h)

theorem Run.reported
    (hr : Run (Step n b shot callback) (start timeout balancerIndex maxCount) history w) :
    w.Sound ∧ w.Reported := by
  refine hr.invariant (I := fun _ w => w.Sound ∧ w.Reported)
    ⟨sound_start timeout balancerIndex maxCount, fun _ => ⟨nofun, nofun⟩⟩ ?_
  rintro _ _ _ _ ⟨h, hr⟩ hs
  exact ⟨h.step hs, hr.step h hs⟩

/-- **A client of the descriptor -1 stays for good**, and it comes from a protocol that was
empty when `downCallback` took a client from it. -/
theorem stray_stays
    (hr : Run (Step n b shot callback) (start timeout balancerIndex maxCount) history w) :
    (w.Stray → ∀ (more : List Fate) (w' : Descriptors k),
      Run (Step n b shot callback) w more w' → w'.Stray) ∧
    (¬w.Stray → ∀ (es : List Fate) (w' : Descriptors k), Step n b shot callback w es w' → w'.Stray →
      ∃ maxIdx minIdx socket now, w' = w.take maxIdx minIdx socket now ∧
        (w.clients maxIdx).entries = []) := by
  obtain ⟨hsound, hreported⟩ := Run.reported hr
  refine ⟨fun h more w' hr' => ?_, fun h es w' hs h' => (h'.origin hs).resolve_left h⟩
  refine (hr'.invariant (I := fun _ w => w.Sound ∧ w.Reported ∧ w.Stray)
    ⟨hsound, hreported, h⟩ ?_).2.2
  rintro _ _ _ _ ⟨hsound, hreported, h⟩ hs
  exact ⟨hsound.step hs, hreported.step hsound hs, h.step hreported hs⟩

/-! ### A client that hangs up while it is about to be moved -/

def sampleHangUp : EpollEvent := { fd := 5, hangUp := true }

def sampleLooked (i j : Fin 2) : Descriptors 2 :=
  { sampleAdded.setProtocol i (sampleAdded.updated i) (.waited [sampleHangUp]) with
    moving := .looked i j }

def samplePolled (i j : Fin 2) : Polled 106 :=
  ⟨((sampleLooked i j).server.protocols i).clientInfos, sampleBuffer, [], [], [5], []⟩

/-- The only client of the protocol is closed between the look at it and the taking. -/
def sampleStray (i j : Fin 2) : Descriptors 2 :=
  (((sampleLooked i j).setProtocol i ((sampleLooked i j).read i (samplePolled i j) 0)
    (.polled [5])).close i [5]).take i j 5 ⟨0, 0⟩

def sampleGiven (i j : Fin 2) : Descriptors 2 :=
  { (sampleStray i j).register j (.make (-1) deadlineMaxCountDefault ⟨0, 0⟩) 0 with
    moving := .idle }

theorem run_stray :
    Run (Step 106 ⟨true, .little⟩ .multi pollCallback) sampleServer [.accepted 5, .closed 5]
      (sampleStray 0 1) := by
  have h1 := run_added.next (.wait 0 [sampleHangUp] rfl ⟨by decide, by decide, by decide⟩)
  have h2 := h1.next (.pick 0 1 rfl (by decide))
  have h3 := h2.next (.look 0 1 rfl (by decide))
  have h4 := h3.next (.read 0 [sampleHangUp] sampleBuffer (samplePolled 0 1) 0 rfl rfl)
  have h5 := h4.next (.close 0 [5] rfl)
  exact h5.next (.take 0 1 5 ⟨0, 0⟩ rfl)

theorem sampleStray_stray : (sampleStray 0 1).Stray :=
  ⟨.moved, .make (-1) deadlineMaxCountDefault ⟨0, 0⟩, 1, rfl, rfl⟩

theorem stray_stays_sample : (sampleGiven 0 1).Stray :=
  (stray_stays run_stray).1 sampleStray_stray [] (sampleGiven 0 1)
    (.next .start (.give (.make (-1) deadlineMaxCountDefault ⟨0, 0⟩) 1 0 rfl))

end Runs

end Descriptors

end PollServer
