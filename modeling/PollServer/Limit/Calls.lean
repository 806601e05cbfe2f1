import PollServer.Lib.Runs
import PollServer.Model.Client

/-! What the client's calls do to its deadline. A call is a run of three kinds of steps,
whatever its socket and its clock give it; only `SetupConnection` sends a packet that its
deadline is not asked about. -/

namespace PollServer

open Lib StopM

/-- A look at the deadline that comes to nothing; a packet that is read, or is not sent; a
packet that is sent. -/
inductive ActStep (b : Build) : Deadline → List Act → Deadline → Prop where
  | looked (d : Deadline) (now : Timespec) : ActStep b d [.looked now] d
  | counted {d : Deadline} {now : Timespec} (time : Timespec) (hd : d.breached b now = .ok false) :
      ActStep b d [.looked now, .counted time] (d.increment time)
  | sent {d : Deadline} {now : Timespec} (time : Timespec) (packet : NetworkPacket)
      (sending : Timespec) (hd : d.breached b now = .ok false) :
      ActStep b d [.looked now, .counted time, .sent packet sending] (d.increment time)

namespace ClientLearnProtocol

variable {n : ℕ} {b : Build} {s s' : Calling n}

/-- The state after acts that are a run of such steps. -/
def Acted (b : Build) (s s' : Calling n) : Prop :=
  ∃ acts, Run (ActStep b) s.self.deadline acts s'.self.deadline ∧ s'.acts = s.acts ++ acts

theorem Acted.of_eq (hd : s'.self.deadline = s.self.deadline) (ha : s'.acts = s.acts) :
    Acted b s s' := ⟨[], by rw [hd]; exact .start, by rw [ha, List.append_nil]⟩

theorem Acted.refl (s : Calling n) : Acted b s s := .of_eq rfl rfl

theorem Acted.trans (s s' s'' : Calling n) (h : Acted b s s') (h' : Acted b s' s'') :
    Acted b s s'' := by
  obtain ⟨acts, hrun, ha⟩ := h
  obtain ⟨acts', hrun', ha'⟩ := h'
  exact ⟨acts ++ acts', hrun.append hrun', by rw [ha', ha, List.append_assoc]⟩

theorem Acted.single {acts : List Act} (hs : ActStep b s.self.deadline acts s'.self.deadline)
    (ha : s'.acts = s.acts ++ acts) : Acted b s s' :=
  ⟨acts, Run.start.next hs, ha⟩

theorem packet_acts (command data : List Byte) :
    Steps (Acted b) (packet command data : ClientM n NetworkPacket) := fun s => .refl s

theorem writeTo_cases (p : NetworkPacket) (s : Calling n) :
    (writeTo b p s).2.self = s.self ∧
      ((writeTo b p s).2.acts = s.acts ∨
        ∃ now, (writeTo b p s).2.acts = s.acts ++ [.sent p now]) := by
  obtain ⟨ready, s1, hpoll, hself, hacts⟩ : ∃ ready s1,
      onWire (fun timeout _ => pollIn timeout) s = (ready, s1) ∧ s1.self = s.self ∧ s1.acts = s.acts :=
    ⟨_, _, rfl, rfl, rfl⟩
  rcases ready with stop | _ | _
  · rw [writeTo, bind_error hpoll]
    exact ⟨hself, Or.inl hacts⟩
  · rw [writeTo, bind_ok hpoll]
    exact ⟨hself, Or.inl hacts⟩
  · rw [writeTo, bind_ok hpoll, if_pos rfl, ← hself, ← hacts]
    unfold sendOut
    rcases sendRaw b (p.marshall b.order) (s1.sends.headD []) with stop | sent
    · exact ⟨rfl, Or.inl rfl⟩
    · refine ⟨rfl, ?_⟩
      dsimp only
      split_ifs
      · exact Or.inr ⟨_, rfl⟩
      · exact Or.inl rfl

theorem look_apply (s : Calling n) : look b s =
    (s.self.deadline.breached b (s.clock s.ticks),
      { s with ticks := s.ticks + 1, acts := s.acts ++ [.looked (s.clock s.ticks)] }) := rfl

/-- **`Write` asks the deadline, and counts, before it sends its packet.** -/
theorem write_step (p : NetworkPacket) (s : Calling n) :
    ∃ acts, ActStep b s.self.deadline acts (write b p s).2.self.deadline ∧
      (write b p s).2.acts = s.acts ++ acts ∧ ∀ q now, .sent q now ∈ acts → q = p := by
  have hlook := look_apply (b := b) s
  rcases hd : s.self.deadline.breached b (s.clock s.ticks) with stop | _ | _
  · rw [hd] at hlook
    rw [write, bind_error hlook]
    exact ⟨_, .looked _ _, rfl, by simp⟩
  · rw [hd] at hlook
    rw [write, bind_ok hlook, if_neg Bool.false_ne_true]
    obtain ⟨s1, hcount, hself, hacts⟩ : ∃ s1 : Calling n,
        count { s with ticks := s.ticks + 1, acts := s.acts ++ [.looked (s.clock s.ticks)] } =
          (.ok (), s1) ∧ s1.self.deadline = s.self.deadline.increment (s.clock (s.ticks + 1)) ∧
        s1.acts = s.acts ++ [.looked (s.clock s.ticks), .counted (s.clock (s.ticks + 1))] :=
      ⟨_, rfl, rfl, by simp⟩
    rw [bind_ok hcount]
    obtain ⟨hsame, hrest⟩ := writeTo_cases (b := b) p s1
    rw [hsame, hself]
    rcases hrest with hquiet | ⟨sending, hsent⟩
    · exact ⟨_, .counted _ hd, by rw [hquiet, hacts], by simp⟩
    · exact ⟨_, .sent _ p sending hd, by rw [hsent, hacts]; simp, by simp⟩
  · rw [hd] at hlook
    rw [write, bind_ok hlook, if_pos rfl]
    exact ⟨_, .looked _ _, rfl, by simp⟩

theorem write_acts (p : NetworkPacket) : Steps (Acted b) (write b p : ClientM n Result) := by
  intro s
  obtain ⟨acts, hstep, hacts, -⟩ := write_step (b := b) p s
  exact .single hstep hacts

/-- **`Read` asks the deadline before it reads, counts what it has read, and answers
heartbeats by `Write`.** -/
theorem read_acts (fuel : ℕ) : Steps (Acted b) (read b fuel : ClientM n NetworkPacket) := by
  induction fuel with
  | zero => exact .stop .refl _
  | succ fuel ih =>
    intro s
    have hlook := look_apply (b := b) s
    rcases hd : s.self.deadline.breached b (s.clock s.ticks) with stop | _ | _
    · rw [hd] at hlook
      rw [read, bind_error hlook]
      exact .single (.looked _ _) rfl
    · rw [hd] at hlook
      rw [read, bind_ok hlook, if_neg Bool.false_ne_true]
      obtain ⟨r, s1, hread, hself, hacts⟩ : ∃ r s1,
          readFrom b { s with ticks := s.ticks + 1, acts := s.acts ++ [.looked (s.clock s.ticks)] } =
            (r, s1) ∧ s1.self = s.self ∧ s1.acts = s.acts ++ [.looked (s.clock s.ticks)] :=
        ⟨_, _, rfl, rfl, rfl⟩
      rcases r with stop | p
      · rw [bind_error hread]
        exact .single (by rw [hself]; exact .looked _ _) hacts
      · rw [bind_ok hread]
        obtain ⟨s2, hcount, hdeadline, hacts2⟩ : ∃ s2 : Calling n, count s1 = (.ok (), s2) ∧
            s2.self.deadline = s.self.deadline.increment (s1.clock s1.ticks) ∧
            s2.acts = s.acts ++ [.looked (s.clock s.ticks), .counted (s1.clock s1.ticks)] :=
          ⟨_, rfl, by rw [hself], by rw [hacts]; simp⟩
        rw [bind_ok hcount]
        apply Acted.trans s s2 _ (.single (by rw [hdeadline]; exact .counted _ hd) hacts2)
        exact Steps.ite (.bind Acted.trans (packet_acts _ _) fun _ =>
          .bind Acted.trans (write_acts _) fun _ => ih) (.pure .refl p) s2
    · rw [hd] at hlook
      rw [read, bind_ok hlook, if_pos rfl]
      exact .single (.looked _ _) rfl

/-- Nothing was done that the deadline or the clock is asked about, but for the client's
identity that was sent, or was not. -/
def Past (s s' : Calling n) : Prop :=
  s'.self = s.self ∧ (s'.acts = s.acts ∨
    ∃ p now, s'.acts = s.acts ++ [.sent p now] ∧ p.command = Commands.Setup.clientID)

theorem Past.refl (s : Calling n) : Past s s := ⟨rfl, Or.inl rfl⟩

/-- Nothing at all. -/
structure Unacted (s s' : Calling n) : Prop where
  self : s'.self = s.self
  acts : s'.acts = s.acts

theorem Unacted.refl (s : Calling n) : Unacted s s := ⟨rfl, rfl⟩

theorem Unacted.trans (s s' s'' : Calling n) (h : Unacted s s') (h' : Unacted s' s'') :
    Unacted s s'' := ⟨h'.self.trans h.self, h'.acts.trans h.acts⟩

theorem Unacted.past (s s' s'' : Calling n) (h : Unacted s s') (h' : Past s' s'') : Past s s'' := by
  rw [Past, h.self, h.acts] at h'
  exact h'

theorem Past.unacted (s s' s'' : Calling n) (h : Past s s') (h' : Unacted s' s'') : Past s s'' := by
  rw [Past, h'.self, h'.acts]
  exact h

theorem readJoin_unacted (result : Result) : Steps Unacted (readJoin b result : ClientM n Result) := by
  refine .ite (.pure Unacted.refl _) ?_
  refine .bind Unacted.trans (fun _ => ⟨rfl, rfl⟩) fun join => ?_
  exact .ite (.pure Unacted.refl _) (.pure Unacted.refl _)

theorem clientId_past : Steps Past (do
    let clientIdSend ← clientIdPacket
    let result ← writeTo b clientIdSend
    readJoin b result : ClientM n Result) := by
  intro s
  change Past s
    ((writeTo b ⟨s.self.server, Commands.Setup.clientID, s.self.clientId⟩ >>= readJoin b) s).2
  obtain ⟨hself, hacts⟩ := writeTo_cases (b := b)
    ⟨s.self.server, Commands.Setup.clientID, s.self.clientId⟩ s
  have hpast : Past s (writeTo b ⟨s.self.server, Commands.Setup.clientID, s.self.clientId⟩ s).2 :=
    ⟨hself, hacts.imp_right fun ⟨now, h⟩ => ⟨_, now, h, rfl⟩⟩
  rcases hw : writeTo b ⟨s.self.server, Commands.Setup.clientID, s.self.clientId⟩ s with
    ⟨stop | result, s1⟩
  · rw [hw] at hpast
    rw [bind_error hw]
    exact hpast
  · rw [hw] at hpast
    rw [bind_ok hw]
    exact hpast.unacted s s1 _ (readJoin_unacted result s1)

theorem readSyn_past (result : Result) : Steps Past (readSyn b result : ClientM n Result) := by
  refine .ite (.pure Past.refl _) ?_
  refine .bind_of (fun s s' h => h.past s s' s' (.refl s')) Unacted.past (fun _ => ⟨rfl, rfl⟩)
    fun _ => ?_
  exact .ite (.pure Past.refl _) clientId_past

/-- **`SetupConnection` sends the client's identity past the deadline**, behind the
acknowledgement that it writes. -/
theorem setupConnection_acts (s : Calling n) :
    ∃ acts past, ActStep b s.self.deadline acts (setupConnection b s).2.self.deadline ∧
      (∀ q now, .sent q now ∈ acts → q.command = Commands.Setup.ack) ∧
      (setupConnection b s).2.acts = s.acts ++ acts ++ past ∧
      (past = [] ∨ ∃ p now, past = [.sent p now] ∧ p.command = Commands.Setup.clientID) := by
  change ∃ acts past, ActStep b s.self.deadline acts
    ((write b ⟨s.self.server, Commands.Setup.ack, []⟩ >>= readSyn b) s).2.self.deadline ∧ _ ∧
      ((write b ⟨s.self.server, Commands.Setup.ack, []⟩ >>= readSyn b) s).2.acts =
        s.acts ++ acts ++ past ∧ _
  obtain ⟨acts, hstep, hacts, hsent⟩ :=
    write_step (b := b) ⟨s.self.server, Commands.Setup.ack, []⟩ s
  have hack : ∀ q now, .sent q now ∈ acts → q.command = Commands.Setup.ack := by
    intro q now hq
    rw [hsent q now hq]
  rcases hw : write b ⟨s.self.server, Commands.Setup.ack, []⟩ s with ⟨stop | result, s1⟩
  · rw [hw] at hstep hacts
    rw [bind_error hw]
    exact ⟨acts, [], hstep, hack, by simpa using hacts, Or.inl rfl⟩
  · rw [hw] at hstep hacts
    rw [bind_ok hw]
    obtain ⟨hself, hpast⟩ := readSyn_past (b := b) result s1
    rw [hself]
    rcases hpast with hquiet | ⟨p, now, hpast, hp⟩
    · exact ⟨acts, [], hstep, hack, by rw [hquiet, hacts, List.append_nil], Or.inl rfl⟩
    · exact ⟨acts, [_], hstep, hack, by rw [hpast, hacts], Or.inr ⟨p, now, rfl, hp⟩⟩

end ClientLearnProtocol

end PollServer
