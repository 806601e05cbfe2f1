import PollServer.Serve.Threads

/-! The time that a client is left between its warning and its end: `execHealthCheck` sleeps
between two passes over the protocols. -/

namespace PollServer

open Lib NetworkPacket ClientInfos

namespace Program

open Sections (Threading)

variable {k n : ℕ} {th : Threading} {b : Build} {shot : Shot}
  {callback : NetworkPacket → ClientInfo → NetworkPacket} {time : ℤ} {w w' : Program k n}
  {hs : List (Happening k)} {history es after : List (ℤ × Happening k)} {socket t : ℤ}

section Warnings

/-- What ends a warning of `socket`. -/
def EndsWarning (socket : ℤ) (h : Happening k) : Prop := ∃ e, h = .event e ∧ EndsStrike socket e

/-- `socket` was warned at `t`, and all that has happened since is `after`. -/
structure Warned (history : List (ℤ × Happening k)) (socket t : ℤ) (after : List (ℤ × Happening k)) :
    Prop where
  warned : ∃ before, history = before ++ (t, .event (.warned socket)) :: after
  silent : ∀ e ∈ after, ¬EndsWarning socket e.2

theorem Warned.append (h : Warned history socket t after) (hes : ∀ e ∈ es, ¬EndsWarning socket e.2) :
    Warned (history ++ es) socket t (after ++ es) := by
  obtain ⟨⟨before, rfl⟩, hsilent⟩ := h
  refine ⟨⟨before, by simp⟩, fun e he => ?_⟩
  rcases List.mem_append.mp he with he | he
  · exact hsilent e he
  · exact hes e he

theorem Warned.of_mem (h : (t, .event (.warned socket)) ∈ es) (hes : ∀ e ∈ es, ¬EndsWarning socket e.2)
    (history : List (ℤ × Happening k)) : ∃ after, Warned (history ++ es) socket t after := by
  obtain ⟨before, after, rfl⟩ := List.append_of_mem h
  exact ⟨after, ⟨history ++ before, by simp⟩, fun e he => hes e (by simp [he])⟩

theorem mem_events {e : Event k} : e ∈ events hs ↔ .event e ∈ hs := by
  rw [events, List.mem_filterMap]
  constructor
  · rintro ⟨h, hmem, heq⟩
    cases h with
    | event e' =>
      cases heq
      exact hmem
    | _ => cases heq
  · exact fun h => ⟨_, h, rfl⟩

theorem not_endsWarning (h : ∀ e ∈ events hs, ¬EndsStrike socket e) :
    ∀ e ∈ hs.map (time, ·), ¬EndsWarning socket e.2 := by
  intro e he hends
  obtain ⟨h', hmem, rfl⟩ := List.mem_map.mp he
  obtain ⟨e', rfl, hends⟩ := hends
  exact h e' (mem_events.mpr hmem) hends

end Warnings

section Phases

/-- A warning of a client of `i` at `t` is from an earlier pass, or `i` has been passed in this one,
unless the client has been moved, which is `m`. -/
def Spaces (i : Fin k) (t : ℤ) (m : Prop) : HealthCheck → Prop
  | .asleep since => t ≤ since
  | .checking since next _ => t + 10 ≤ since ∨ (i : ℕ) < next ∨ m

/-- A pass does not begin in the future. -/
def Begun (clock : ℤ) : HealthCheck → Prop
  | .asleep since => since ≤ clock
  | .checking since _ _ => since ≤ clock

variable {i j : Fin k} {m m' : Prop}

theorem Spaces.mono {h : HealthCheck} (hs : Spaces i t m h) (hm : m → m') :
    Spaces i t m' h := by
  cases h with
  | asleep since => exact hs
  | checking since next _ => exact hs.imp_right (Or.imp_right hm)

theorem Spaces.moved {h : HealthCheck} (hs : Spaces i t m h) (hm : m') : Spaces j t m' h := by
  cases h with
  | asleep since => exact hs
  | checking since next _ => exact hs.imp_right fun _ => Or.inr hm

theorem Begun.mono {clock clock' : ℤ} {h : HealthCheck} (hb : Begun clock h) (hle : clock ≤ clock') :
    Begun clock' h := by
  cases h with
  | asleep since => exact hb.trans hle
  | checking since _ _ => exact hb.trans hle

/-- A turn of the health check goes on from protocol to protocol, and sleeps between two passes. -/
theorem Spaces.turn (hs : Spaces i t m w.healthCheck) (h : Turn th b shot callback time w hs' w')
    (ht : t ≤ time) : Spaces i t m w'.healthCheck := by
  cases h with
  | wake since hh hlate =>
    rw [hh] at hs
    exact Or.inl ((add_le_add_left hs 10).trans hlate)
  | check since l socketsToClose hh =>
    rw [hh] at hs
    exact hs.imp_right (Or.imp_left fun hlt => hlt.trans (Nat.lt_succ_self _))
  | closeSockets since socketsToClose hh => exact ht
  | _ => exact hs

theorem Begun.turn (hb : Begun time w.healthCheck) (h : Turn th b shot callback time w hs w') :
    Begun time w'.healthCheck := by
  cases h with
  | wake since hh hlate => exact le_rfl
  | check since l socketsToClose hh =>
    rw [hh] at hb
    exact hb
  | closeSockets since socketsToClose hh => exact le_rfl
  | _ => exact hb

theorem Turn.warned (h : Turn th b shot callback time w hs w') (hmem : .event (.warned socket) ∈ hs) :
    (∃ since, ∃ i : Fin k, ∃ socketsToClose, w'.healthCheck = .checking since (i + 1) socketsToClose ∧
      socket ∈ w.clients i) ∧ ∀ e ∈ events hs, ¬EndsStrike socket e := by
  cases h with
  | check since i socketsToClose hh =>
    refine ⟨⟨since, i, _, rfl, ?_⟩, fun e he => ?_⟩
    · obtain ⟨packet, hp, heq⟩ := List.mem_map.mp hmem
      rw [(filterSockets_spec ((w.server.protocols i).nodup_considered time) (w.clients i)).2.1] at hp
      obtain ⟨socket', hsocket, rfl⟩ := List.mem_map.mp hp
      cases heq
      exact mem_of_spared (List.mem_filter.mp hsocket).2
    · obtain ⟨packet, -, heq⟩ := List.mem_map.mp (mem_events.mp he)
      cases heq
      exact not_endsStrike_warned _ _
  | _ => simp at hmem

end Phases

section Runs

/-- What a run has brought about: every flag is from a warning that has not been answered, and was
given long enough ago. -/
structure Spaced (history : List (ℤ × Happening k)) (w : Program k n) : Prop where
  sound : w.Sound
  begun : Begun w.clock w.healthCheck
  flagged : ∀ i, ∀ c ∈ (w.clients i).entries, c.terminateNow = false ∧
    (c.terminateOnNextCycle = true → ∃ t after, Warned history c.socket t after ∧ t ≤ w.clock ∧
      Spaces i t (∃ t', (t', .moved c.socket) ∈ after) w.healthCheck)

/-- A flag is kept by a client that stays where it is, or is moved. -/
theorem Spaced.carried (h : Spaced history w) (hle : w.clock ≤ time)
    (hturn : Turn th b shot callback time w hs w') {i j : Fin k} {c : ClientInfo}
    (hc : c ∈ (w.clients i).entries) (hflag : c.terminateOnNextCycle = true)
    (hes : ∀ e ∈ events hs, ¬EndsStrike c.socket e) (hij : i = j ∨ .moved c.socket ∈ hs) :
    ∃ t after, Warned (history ++ hs.map (time, ·)) c.socket t after ∧ t ≤ time ∧
      Spaces j t (∃ t', (t', .moved c.socket) ∈ after) w'.healthCheck := by
  obtain ⟨t, after, hwarned, ht, hspaces⟩ := (h.flagged i c hc).2 hflag
  have htime := ht.trans hle
  refine ⟨t, after ++ hs.map (time, ·), hwarned.append (not_endsWarning hes), htime, ?_⟩
  rcases hij with rfl | hmoved
  · exact (hspaces.mono fun ⟨t', ht'⟩ => ⟨t', List.mem_append_left _ ht'⟩).turn hturn htime
  · exact (hspaces.moved ⟨time, List.mem_append_right _ (List.mem_map_of_mem hmoved)⟩).turn hturn htime

theorem Spaced.step (h : Spaced history w) (hstep : Step th b shot callback w es w') :
    Spaced (history ++ es) w' := by
  have hsound := h.sound.step hstep
  obtain ⟨time, hs, v, hle, hturn, rfl, rfl⟩ := hstep
  have hbegun : Begun time v.healthCheck := (h.begun.mono hle).turn hturn
  refine ⟨hsound, hbegun, fun j c' hc' => ?_⟩
  cases hturn.calls h.sound with
  | quiet hserver hevents =>
    have hmem : c' ∈ (w.clients j).entries := by
      rw [clients, ← hserver]
      exact hc'
    exact ⟨(h.flagged j c' hmem).1, fun hflag =>
      h.carried hle hturn hmem hflag (by simp [hevents]) (Or.inl rfl)⟩
  | call op hf ho hadd hmove hexec =>
    obtain ⟨c, hc, hd⟩ | ⟨i, begin, rfl, hold, hes⟩ | rfl :=
      Server.exec_descends h.sound.numbered.alone hf hexec hc'
    · refine ⟨hd.terminateNow.trans (h.flagged j c hc).1, fun hflag => ?_⟩
      rw [hd.socket]
      rcases hd.flag hflag with ⟨hflag, hes⟩ | hwarn
      · exact h.carried hle hturn hc hflag hes (Or.inl rfl)
      · have hmem := mem_events.mp hwarn
        obtain ⟨⟨since, i, socketsToClose, hh, hclient⟩, hes⟩ := hturn.warned hmem
        obtain rfl : i = j := h.sound.numbered.alone _ _ _ hclient (Keyed.mem_of_entry _ hc)
        obtain ⟨after, hafter⟩ := Warned.of_mem (List.mem_map_of_mem hmem) (not_endsWarning hes) history
        refine ⟨time, after, hafter, le_rfl, ?_⟩
        rw [hh]
        exact Or.inr (Or.inl (Nat.lt_succ_self _))
    · obtain ⟨c, hc, hmoved⟩ := hmove i j begin rfl
      obtain rfl : c' = c := Option.some.inj (hold.symm.trans hc)
      refine ⟨(h.flagged i c' (mem_of_oldest hold)).1, fun hflag => ?_⟩
      apply h.carried hle hturn (mem_of_oldest hold) hflag _ (Or.inr hmoved)
      simp [hes, not_endsStrike_updated]
    · obtain ⟨-, -, now, heq⟩ := ho
      rw [heq]
      exact ⟨rfl, fun hflag => absurd hflag Bool.false_ne_true⟩

variable {clock : ℤ} {buffer : Fin k → Buffer n}

theorem Run.spaced (hk : 0 < k) (hr : Run (Step th b shot callback) (start clock buffer) history w) :
    Spaced history w := by
  refine hr.invariant (I := Spaced) ⟨sound_start hk, le_rfl, ?_⟩ fun _ _ _ _ h hs => h.step hs
  exact fun _ _ hc => absurd hc List.not_mem_nil

/-- No thread is in the loop of `downCallback`. -/
def Unswitched (w : Program k n) : Prop :=
  ∀ i count prevSocket, w.pollAndRead i ≠ .downCallback count prevSocket

theorem Unswitched.polls (h : w.Unswitched) {i : Fin k} {next : PollAndRead}
    (hpolls : w'.pollAndRead = Function.update w.pollAndRead i next)
    (hnext : ∀ count prevSocket, next ≠ .downCallback count prevSocket) : w'.Unswitched := by
  intro j count prevSocket
  rw [hpolls]
  by_cases hj : j = i
  · rw [hj, Function.update_self]
    exact hnext count prevSocket
  · rw [Function.update_of_ne hj]
    exact h j count prevSocket

theorem Unswitched.turn (h : w.Unswitched) (hswitch : th.switch = false)
    (ht : Turn th b shot callback time w hs w') : w'.Unswitched ∧ .moved socket ∉ hs := by
  have hclosing : ∀ count prevSocket, afterClosing th ≠ .downCallback count prevSocket := by
    intro count prevSocket
    rw [afterClosing]
    split_ifs <;> simp
  cases ht with
  | size i => exact ⟨h.polls rfl (by simp), by simp⟩
  | pollRead i events p v =>
    refine ⟨h.polls rfl fun count prevSocket => ?_, by simp⟩
    rw [afterReading]
    split_ifs
    · exact hclosing count prevSocket
    · simp
  | closeSocketConnections i sockets =>
    refine ⟨h.polls rfl fun count prevSocket => ?_, by simp⟩
    cases ((w.server.protocols i).closeSocketConnections w.server.balancer sockets).2.1 with
    | none => exact hclosing count prevSocket
    | some count' => simpa [afterRemoving, hswitch] using hclosing count prevSocket
  | switched i count prevSocket _ _ _ _ hp => exact absurd hp (h i _ _)
  | broken i => exact ⟨h.polls rfl hclosing, by simp⟩
  | counted i => exact ⟨h.polls rfl hclosing, by simp⟩
  | execute i => exact ⟨h.polls rfl (by simp), by simp⟩
  | write i => exact ⟨h.polls rfl (by simp), by simp⟩
  | _ => exact ⟨h, by simp⟩

theorem Run.unswitched (hswitch : th.switch = false)
    (hr : Run (Step th b shot callback) (start clock buffer) history w) :
    w.Unswitched ∧ ∀ t, (t, .moved socket) ∉ history := by
  refine hr.invariant (I := fun history (w : Program k n) =>
    w.Unswitched ∧ ∀ t, (t, .moved socket) ∉ history) ⟨?_, by simp⟩ ?_
  · intro i count prevSocket hp
    cases hp
  · rintro history es w w' ⟨h, hnot⟩ ⟨time, hs, v, -, hturn, rfl, rfl⟩
    have hstays : v.Unswitched ∧ .moved socket ∉ hs := h.turn hswitch hturn
    obtain ⟨hv, hquiet⟩ := hstays
    refine ⟨hv, fun t hmem => ?_⟩
    rcases List.mem_append.mp hmem with hmem | hmem
    · exact hnot t hmem
    · obtain ⟨h', hmem, heq⟩ := List.mem_map.mp hmem
      cases heq
      exact hquiet hmem

/-- **A warning leaves a client ten seconds**: what a check selects was warned that long ago and has
not been heard of since, unless it has been moved since it was warned. -/
theorem grace (hk : 0 < k) (hr : Run (Step th b shot callback) (start clock buffer) history w)
    {since now : ℤ} {i : Fin k} {socketsToClose : List ℤ}
    (hh : w.healthCheck = .checking since i socketsToClose) (hnow : w.clock ≤ now)
    (hclient : socket ∈ w.clients i)
    (hselected : socket ∈ ((w.server.protocols i).execHealthCheck [] now).1) :
    ∃ t after, Warned history socket t after ∧
      (t + 10 ≤ now ∨ th.switch = true ∧ ∃ t', (t', .moved socket) ∈ after) := by
  have h := Run.spaced hk hr
  have hspared := ((((w.server.protocols i).execHealthCheck_spec [] now).selected socket).mp
    hselected).resolve_left List.not_mem_nil |>.2
  obtain ⟨c, hc⟩ := (Keyed.mem_iff_find _).mp hclient
  obtain ⟨hmem, rfl⟩ := (Keyed.find_eq_some _).mp hc
  obtain ⟨hnever, hflag⟩ := h.flagged i c hmem
  obtain ⟨t, after, hwarned, -, hspaces⟩ := hflag (by simpa [spared, hc, hnever] using hspared)
  have hbegun := h.begun
  rw [hh] at hspaces hbegun
  refine ⟨t, after, hwarned, ?_⟩
  obtain hlate | hlt | hmoved := hspaces
  · exact Or.inl (hlate.trans (hbegun.trans hnow))
  · exact absurd hlt (lt_irrefl _)
  · cases hswitch : th.switch with
    | true => exact Or.inr ⟨rfl, hmoved⟩
    | false =>
      obtain ⟨t', ht'⟩ := hmoved
      obtain ⟨before, rfl⟩ := hwarned.warned
      exact absurd (List.mem_append_right _ (List.mem_cons_of_mem _ ht'))
        ((Run.unswitched hswitch hr).2 t')

/-- The client was warned at 10, and `execHealthCheck` has woken again at 20. -/
def sampleWarned (i : Fin 1) : Program 1 106 :=
  { sampleJoined i with
    server := (sampleJoined i).server.set i (((sampleJoined i).server.protocols i).execHealthCheck [] 10).2
    clock := 20
    healthCheck := .checking 20 i [] }

theorem run_warned : ∃ history, Run SampleStep sampleStart history (sampleWarned 0) := by
  have hwake : SampleStep (sampleJoined 0) []
      { sampleJoined 0 with clock := 10, healthCheck := .checking 10 0 [] } :=
    ⟨10, _, _, by decide, .wake 0 rfl (by decide), rfl, rfl⟩
  have hcheck := (run_joined.next hwake).next ⟨10, _, _, le_rfl, .check 10 0 [] rfl, rfl, rfl⟩
  have hclose := hcheck.next ⟨10, _, _, le_rfl, .closeSockets 10 _ rfl, rfl, rfl⟩
  exact ⟨_, hclose.next ⟨20, _, _, by decide, .wake 10 rfl (by decide), rfl, rfl⟩⟩

theorem grace_warned : ∃ history t after, Run SampleStep sampleStart history (sampleWarned 0) ∧
    Warned history 5 t after ∧ t + 10 ≤ 20 := by
  obtain ⟨history, hr⟩ := run_warned
  obtain ⟨t, after, hwarned, hlate⟩ := grace (i := 0) (by decide) hr rfl (le_refl 20)
    (show (5 : ℤ) ∈ (sampleWarned 0).clients 0 by decide) (by decide)
  exact ⟨history, t, after, hr, hwarned, hlate.resolve_right (by simp)⟩

end Runs

end Program

end PollServer
