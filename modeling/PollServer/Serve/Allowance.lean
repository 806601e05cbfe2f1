import PollServer.Limit.Calls
import PollServer.Serve.Rate

/-! A client that asks its own deadline, before the server that asks the same of it. Every
packet is met by a turn of the server, in the single-shot build, at the instant it is sent. -/

namespace PollServer

open Lib

/-- Where the client stands in `SetupConnection`. -/
inductive Setup where
  | fresh
  | acked
  | finished
  deriving DecidableEq

/-- The accept, and the packets that have been sent at most. -/
def Setup.most : Setup → ℕ
  | fresh => 1
  | acked => 2
  | finished => 3

theorem Setup.most_le (setup : Setup) : setup.most ≤ finished.most := by
  cases setup <;> decide

/-- A time of the client's clock, and whether a packet that it then sent was met by a
breached deadline. -/
structure Note where
  time : Timespec
  met : Bool
  deriving DecidableEq

/-- When the client counted a packet that it wrote, and when it sent it. -/
structure Posted where
  counted : Timespec
  sent : Timespec
  deriving DecidableEq

/-- `handshake` is when the connection was accepted and when the packets of `SetupConnection`
were sent, `since` what was sent after it. No code reads them. -/
structure Exchange (n : ℕ) where
  setup : Setup
  deadline : Deadline
  server : Polled n
  handshake : List Timespec
  since : List Posted

/-- The accept, and all packets that have been sent. -/
def Exchange.sends {n : ℕ} (x : Exchange n) : List Timespec :=
  x.handshake ++ x.since.map Posted.sent

def sendTimes (acts : List Act) : List Timespec :=
  acts.filterMap fun
    | .sent _ now => some now
    | _ => none

def countedTimes (acts : List Act) : List Timespec :=
  acts.filterMap fun
    | .counted now => some now
    | _ => none

/-- The packets that are sent behind a count. -/
def sendings : List Act → List Posted
  | .counted time :: .sent _ now :: acts => ⟨time, now⟩ :: sendings acts
  | _ :: acts => sendings acts
  | [] => []

theorem sendTimes_sublist (acts : List Act) : (sendTimes acts).Sublist (acts.map Act.time) := by
  induction acts with
  | nil => exact List.Sublist.refl _
  | cons act acts ih =>
    cases act with
    | looked now => exact ih.cons _
    | counted now => exact ih.cons _
    | sent packet now => exact ih.cons_cons _

theorem countedTimes_sublist (acts : List Act) :
    (countedTimes acts).Sublist (acts.map Act.time) := by
  induction acts with
  | nil => exact List.Sublist.refl _
  | cons act acts ih =>
    cases act with
    | looked now => exact ih.cons _
    | counted now => exact ih.cons_cons _
    | sent packet now => exact ih.cons _

theorem ActStep.deadline_eq {b : Build} {d d' : Deadline} {acts : List Act}
    (h : ActStep b d acts d') : d' = d.incrementAll (countedTimes acts) := by
  cases h <;> rfl

/-- What follows a look was not counted before it. -/
theorem sendings_append_looked (acts acts' : List Act) (now : Timespec) :
    sendings (acts ++ .looked now :: acts') = sendings acts ++ sendings acts' := by
  fun_induction sendings acts with
  | case1 time packet sending acts ih => simp [sendings, ih]
  | case2 act acts hsent ih =>
    rw [← ih]
    cases act with
    | looked => simp [sendings]
    | sent => simp [sendings]
    | counted time =>
      cases acts with
      | nil => simp [sendings]
      | cons next acts =>
        cases next with
        | looked => simp [sendings]
        | counted => simp [sendings]
        | sent packet sending => exact absurd rfl (hsent time packet sending acts rfl)
  | case3 => simp [sendings]

theorem ActStep.sendings_append {b : Build} {d d' : Deadline} {acts' : List Act}
    (h : ActStep b d acts' d') (acts : List Act) :
    sendings (acts ++ acts') = sendings acts ++ sendings acts' := by
  cases h <;> exact sendings_append_looked acts _ _

theorem ActStep.sendings_sent {b : Build} {d d' : Deadline} {acts : List Act}
    (h : ActStep b d acts d') : (sendings acts).map Posted.sent = sendTimes acts := by
  cases h <;> rfl

theorem ActStep.sendings_counted {b : Build} {d d' : Deadline} {acts : List Act}
    (h : ActStep b d acts d') :
    ((sendings acts).map Posted.counted).Sublist (countedTimes acts) := by
  cases h with
  | looked => exact List.Sublist.refl _
  | counted => exact List.nil_sublist _
  | sent => exact List.Sublist.refl _

theorem ActStep.sendTimes_length {b : Build} {d d' : Deadline} {acts : List Act}
    (h : ActStep b d acts d') : (sendTimes acts).length ≤ 1 := by
  cases h with
  | looked => exact Nat.zero_le _
  | counted => exact Nat.zero_le _
  | sent => exact Nat.le_refl _

section Turns

variable {n : ℕ} (b : Build) (fd : ℤ)

/-- The one poll event of a packet. -/
def frameEvent (packet : NetworkPacket) (now : Timespec) : EpollEvent :=
  { fd := fd
    readable := true
    recv := [.arrive (packet.marshall b.order)]
    now := now
    clock := fun _ => now }

def met (v : Polled n) (event : EpollEvent) : Bool :=
  (checkedClient event.fd v event).any fun c => c.deadlineBreach b event.now = .ok true

/-- What the server makes of what the client does: a turn for each packet, at the instant it
is sent, and between them whatever leaves the client its deadline. -/
inductive Attended : List Act → Polled n → List Note → Polled n → Prop where
  | done (v : Polled n) : Attended [] v [] v
  | between {acts : List Act} {v v1 v' : Polled n} {notes : List Note}
      (hd : v1.deadlineOf fd = v.deadlineOf fd) (h : Attended acts v1 notes v') :
      Attended acts v notes v'
  | looked {acts : List Act} {v v' : Polled n} {notes : List Note} (now : Timespec)
      (h : Attended acts v notes v') : Attended (.looked now :: acts) v (⟨now, false⟩ :: notes) v'
  | counted {acts : List Act} {v v' : Polled n} {notes : List Note} (now : Timespec)
      (h : Attended acts v notes v') : Attended (.counted now :: acts) v (⟨now, false⟩ :: notes) v'
  | sent {acts : List Act} {v v1 v' : Polled n} {notes : List Note} (packet : NetworkPacket)
      (now : Timespec) (hv : pollEvent b .single v (frameEvent b fd packet now) = .ok v1)
      (h : Attended acts v1 notes v') :
      Attended (.sent packet now :: acts) v
        (⟨now, met b v (frameEvent b fd packet now)⟩ :: notes) v'

/-- The calls: `SetupConnection`, and then those of `Read` and `Write` that `Allowed` allows. -/
inductive Exchange.Call (Allowed : Exchange n → List Act → Prop) :
    Exchange n → List Note → Exchange n → Prop where
  | setupConnection {m : ℕ} {x : Exchange n} {s s' : Calling m} {r : Except Stop Result}
      {notes : List Note} {v : Polled n} (hs : x.setup = .fresh)
      (hd : s.self.deadline = x.deadline) (ha : s.acts = [])
      (hcall : ClientLearnProtocol.setupConnection b s = (r, s'))
      (hv : Attended b fd s'.acts x.server notes v) :
      Call Allowed x notes
        { x with
          setup := .finished
          deadline := s'.self.deadline
          server := v
          handshake := x.handshake ++ sendTimes s'.acts }
  | read {m : ℕ} (fuel : ℕ) {x : Exchange n} {s s' : Calling m} {r : Except Stop NetworkPacket}
      {notes : List Note} {v : Polled n} (hs : x.setup = .finished)
      (hd : s.self.deadline = x.deadline) (ha : s.acts = [])
      (hcall : ClientLearnProtocol.read b fuel s = (r, s')) (hf : Allowed x s'.acts)
      (hv : Attended b fd s'.acts x.server notes v) :
      Call Allowed x notes
        { x with
          deadline := s'.self.deadline
          server := v
          since := x.since ++ sendings s'.acts }
  | write {m : ℕ} (packet : NetworkPacket) {x : Exchange n} {s s' : Calling m}
      {r : Except Stop Result} {notes : List Note} {v : Polled n} (hs : x.setup = .finished)
      (hd : s.self.deadline = x.deadline) (ha : s.acts = [])
      (hcall : ClientLearnProtocol.write b packet s = (r, s')) (hf : Allowed x s'.acts)
      (hv : Attended b fd s'.acts x.server notes v) :
      Call Allowed x notes
        { x with
          deadline := s'.self.deadline
          server := v
          since := x.since ++ sendings s'.acts }
  | other {x : Exchange n} {v : Polled n} (hv : v.deadlineOf fd = x.server.deadlineOf fd) :
      Call Allowed x [] { x with server := v }

/-- What the calls are made of, one packet at most in each step. -/
inductive Exchange.Step (Allowed : Exchange n → List Act → Prop) :
    Exchange n → List Note → Exchange n → Prop where
  | ack {x : Exchange n} {acts : List Act} {d : Deadline} {notes : List Note} {v : Polled n}
      (hs : x.setup = .fresh) (ha : ActStep b x.deadline acts d)
      (hk : ∀ p now, .sent p now ∈ acts → p.command = Commands.Setup.ack)
      (hv : Attended b fd acts x.server notes v) :
      Step Allowed x notes
        { x with setup := .acked, deadline := d, server := v, handshake := x.handshake ++ sendTimes acts }
  | clientId {x : Exchange n} {notes : List Note} {v : Polled n} (p : NetworkPacket)
      (now : Timespec) (hs : x.setup = .acked) (hp : p.command = Commands.Setup.clientID)
      (hv : Attended b fd [.sent p now] x.server notes v) :
      Step Allowed x notes { x with setup := .finished, server := v, handshake := x.handshake ++ [now] }
  | finish {x : Exchange n} : Step Allowed x [] { x with setup := .finished }
  | call {x : Exchange n} {acts : List Act} {d : Deadline} {notes : List Note} {v : Polled n}
      (hs : x.setup = .finished) (ha : ActStep b x.deadline acts d) (hf : Allowed x acts)
      (hv : Attended b fd acts x.server notes v) :
      Step Allowed x notes { x with deadline := d, server := v, since := x.since ++ sendings acts }
  | other {x : Exchange n} {v : Polled n} (hv : v.deadlineOf fd = x.server.deadlineOf fd) :
      Step Allowed x [] { x with server := v }

/-- **The condition under which a packet finds room** that is sent at `sending`, after a look
at `now`. If the last of the handshake is at most `maxTime` ago, what there is of the handshake
in the last `maxTime` leaves room for what was sent since. If not, no packet was so long on its
way from the count to the send that it is in the server's window and not in the client's. -/
def Exchange.HasRoom (maxCount : ℕ) (x : Exchange n) (now sending : Timespec) : Prop :=
  (∀ last ∈ x.handshake.getLast?, x.deadline.recent sending last = true →
    x.handshake.countP (x.deadline.recent sending) + x.since.length < maxCount) ∧
  ((∀ last ∈ x.handshake.getLast?, x.deadline.recent sending last = false) →
    ∀ p ∈ x.since, x.deadline.recent sending p.sent = true → x.deadline.recent now p.counted = true)

/-- Every packet of a call finds room behind those before it. -/
def FindsRoom (maxCount : ℕ) (x : Exchange n) (acts : List Act) : Prop :=
  ∀ before now time packet sending after,
    acts = before ++ .looked now :: .counted time :: .sent packet sending :: after →
      Exchange.HasRoom maxCount { x with since := x.since ++ sendings before } now sending

variable {b fd} {v v' : Polled n} {d : Deadline} {maxCount : ℕ} {ss : List Timespec}
  {packet : NetworkPacket} {now : Timespec}

theorem frame_deadlineOf (hd : v.deadlineOf fd = some (d.incrementAll ss))
    (hv : pollEvent b .single v (frameEvent b fd packet now) = .ok v') :
    ∃ counts, counts.Sublist [now] ∧ v'.deadlineOf fd = some (d.incrementAll (ss ++ counts)) := by
  have hcounted : v'.deadlineOf fd = (v.deadlineOf fd).map fun d => d.incrementAll
      (countTimes (readings b .single fd v (frameEvent b fd packet now))) := pollEvent_deadlineOf hv
  rw [hd, Option.map_some, ← Deadline.incrementAll_append] at hcounted
  refine ⟨_, ?_, hcounted⟩
  rw [countTimes_readings]
  cases hr : readFrom b fd v (frameEvent b fd packet now) with
  | none => exact List.nil_sublist _
  | some c =>
    obtain ⟨m, hcounts, hm⟩ := readCounts_eq hr hv
    have hle : m ≤ 1 := by
      by_contra hlt
      exact absurd (hm (by omega)).1 (by decide)
    change ((readCounts b .single v (frameEvent b fd packet now) c) ++ []).Sublist [now]
    rw [hcounts, List.append_nil]
    interval_cases m
    · exact List.nil_sublist _
    · exact List.Sublist.refl _

theorem met_of_room (hm : 0 < maxCount) (hq : d.queue = Queue.make maxCount)
    (hd : v.deadlineOf fd = some (d.incrementAll ss)) (hc : Clocked (ss ++ [now]))
    (hroom : ss.countP (d.recent now) < maxCount) :
    met b v (frameEvent b fd packet now) = false := by
  have hb := Deadline.breached_counts (b := b) hm (Deadline.counts_incrementAll hm hq ss) hc
  rw [Deadline.recent_incrementAll, decide_eq_false (by omega)] at hb
  cases hcheck : checkedClient fd v (frameEvent b fd packet now) with
  | none =>
    rw [met, show (frameEvent b fd packet now).fd = fd from rfl, hcheck]
    rfl
  | some c =>
    obtain ⟨-, -, hfind, -⟩ := checkedClient_eq_some hcheck
    have hdeadline : c.deadline = d.incrementAll ss := by
      rw [Polled.deadlineOf, show v.clients.clientInfos.find fd = some c from hfind] at hd
      exact Option.some.inj hd
    rw [met, show (frameEvent b fd packet now).fd = fd from rfl, hcheck, Option.any_some,
      ClientInfo.deadlineBreach, hdeadline]
    exact decide_eq_false (by rw [show (frameEvent b fd packet now).now = now from rfl, hb]; simp)

/-- Each packet finds room behind those sent before it. -/
def Roomy (d : Deadline) (maxCount : ℕ) : List Timespec → List Act → Prop
  | _, [] => True
  | sends, .sent _ now :: acts =>
    sends.countP (d.recent now) < maxCount ∧ Roomy d maxCount (sends ++ [now]) acts
  | sends, _ :: acts => Roomy d maxCount sends acts

theorem Attended.times {acts : List Act} {notes : List Note} (h : Attended b fd acts v notes v') :
    notes.map Note.time = acts.map Act.time := by
  induction h with
  | done => rfl
  | between _ _ ih => exact ih
  | looked now _ ih => rw [List.map_cons, List.map_cons, ih, Act.time]
  | counted now _ ih => rw [List.map_cons, List.map_cons, ih, Act.time]
  | sent packet now _ _ ih => rw [List.map_cons, List.map_cons, ih, Act.time]

/-- **The server counts no more than what is sent to it, and meets nothing that finds room.** -/
theorem Attended.unmet (hm : 0 < maxCount) (hq : d.queue = Queue.make maxCount) {acts : List Act}
    {sends : List Timespec} {notes : List Note} (h : Attended b fd acts v notes v')
    (hd : v.deadlineOf fd = some (d.incrementAll ss)) (hss : ss.Sublist sends)
    (hc : Clocked (sends ++ acts.map Act.time)) (hroom : Roomy d maxCount sends acts) :
    (∀ note ∈ notes, note.met = false) ∧
      ∃ ss', v'.deadlineOf fd = some (d.incrementAll ss') ∧
        ss'.Sublist (sends ++ sendTimes acts) := by
  have hquiet : ∀ (sends : List Timespec) (act : Act) (acts : List Act),
      Clocked (sends ++ (act :: acts).map Act.time) → Clocked (sends ++ acts.map Act.time) :=
    fun sends act acts h => h.sublist ((List.sublist_cons_self _ _).append_left sends)
  induction h generalizing ss sends with
  | done => exact ⟨by simp, ss, hd, by simpa [sendTimes] using hss⟩
  | between hsame _ ih => exact ih (hsame.trans hd) hss hc hroom
  | looked now _ ih =>
    obtain ⟨hmet, hserver⟩ := ih hd hss (hquiet _ _ _ hc) hroom
    exact ⟨by simpa using hmet, hserver⟩
  | counted now _ ih =>
    obtain ⟨hmet, hserver⟩ := ih hd hss (hquiet _ _ _ hc) hroom
    exact ⟨by simpa using hmet, hserver⟩
  | sent packet now hpoll _ ih =>
    obtain ⟨counts, hcounts, hd1⟩ := frame_deadlineOf hd hpoll
    have hnow : Clocked (ss ++ [now]) :=
      hc.sublist (hss.append (List.singleton_sublist.mpr List.mem_cons_self))
    have hunmet : met b _ (frameEvent b fd packet now) = false :=
      met_of_room hm hq hd hnow (hss.countP_le.trans_lt hroom.1)
    obtain ⟨hmet, ss', hd2, hss'⟩ :=
      ih hd1 (hss.append hcounts) (by simpa [Act.time] using hc) hroom.2
    refine ⟨?_, ss', hd2, by simpa [sendTimes] using hss'⟩
    intro note hnote
    rcases List.mem_cons.mp hnote with rfl | hnote
    · exact hunmet
    · exact hmet note hnote

theorem Attended.nil {notes : List Note} (h : Attended b fd [] v notes v') :
    notes = [] ∧ v'.deadlineOf fd = v.deadlineOf fd := by
  generalize hl : ([] : List Act) = l at h
  induction h with
  | done => exact ⟨rfl, rfl⟩
  | between hd _ ih =>
    obtain ⟨hnotes, hsame⟩ := ih hl
    exact ⟨hnotes, hsame.trans hd⟩
  | looked => cases hl
  | counted => cases hl
  | sent => cases hl

theorem Attended.append {acts acts' : List Act} {notes : List Note}
    (h : Attended b fd (acts ++ acts') v notes v') :
    ∃ notes1 v1 notes2, notes = notes1 ++ notes2 ∧ Attended b fd acts v notes1 v1 ∧
      Attended b fd acts' v1 notes2 v' := by
  generalize hl : acts ++ acts' = l at h
  induction h generalizing acts with
  | done v =>
    obtain ⟨rfl, rfl⟩ := List.append_eq_nil_iff.mp hl
    exact ⟨[], v, [], rfl, .done v, .done v⟩
  | between hd _ ih =>
    obtain ⟨notes1, v1, notes2, rfl, hacts, hacts'⟩ := ih hl
    exact ⟨notes1, v1, notes2, rfl, .between hd hacts, hacts'⟩
  | looked now hrest ih =>
    cases acts with
    | nil =>
      cases hl
      exact ⟨[], _, _, rfl, .done _, .looked now hrest⟩
    | cons act acts =>
      cases hl
      obtain ⟨notes1, v1, notes2, rfl, hacts, hacts'⟩ := ih rfl
      exact ⟨_, v1, notes2, rfl, .looked now hacts, hacts'⟩
  | counted now hrest ih =>
    cases acts with
    | nil =>
      cases hl
      exact ⟨[], _, _, rfl, .done _, .counted now hrest⟩
    | cons act acts =>
      cases hl
      obtain ⟨notes1, v1, notes2, rfl, hacts, hacts'⟩ := ih rfl
      exact ⟨_, v1, notes2, rfl, .counted now hacts, hacts'⟩
  | sent packet now hpoll hrest ih =>
    cases acts with
    | nil =>
      cases hl
      exact ⟨[], _, _, rfl, .done _, .sent packet now hpoll hrest⟩
    | cons act acts =>
      cases hl
      obtain ⟨notes1, v1, notes2, rfl, hacts, hacts'⟩ := ih rfl
      exact ⟨_, v1, notes2, rfl, .sent packet now hpoll hacts, hacts'⟩

/-! ### The calls are made of such steps -/

theorem sendTimes_append (acts acts' : List Act) :
    sendTimes (acts ++ acts') = sendTimes acts ++ sendTimes acts' := List.filterMap_append

theorem FindsRoom.left {x : Exchange n} {acts acts' : List Act}
    (h : FindsRoom maxCount x (acts ++ acts')) :
    FindsRoom maxCount x acts := by
  intro before now time packet sending after heq
  exact h before now time packet sending (after ++ acts') (by rw [heq]; simp)

/-- A step that sends a packet does nothing before the look. -/
theorem ActStep.before_eq_nil {d d' : Deadline} {acts before after : List Act}
    {time sending : Timespec} (h : ActStep b d acts d')
    (heq : acts = before ++ .looked now :: .counted time :: .sent packet sending :: after) :
    before = [] := by
  have hle : acts.length ≤ 3 := by cases h <;> simp
  rw [heq] at hle
  simp only [List.length_append, List.length_cons] at hle
  exact List.eq_nil_of_length_eq_zero (by omega)

/-- A step behind other acts of its call. -/
theorem FindsRoom.step {x : Exchange n} {acts acts' : List Act} {d d' d1 : Deadline}
    (h : FindsRoom maxCount x (acts ++ acts')) (ha : ActStep b d acts' d')
    (hd : d1.recent = x.deadline.recent) (v : Polled n) :
    FindsRoom maxCount { x with deadline := d1, server := v, since := x.since ++ sendings acts }
      acts' := by
  intro before now time packet sending after heq
  obtain rfl := ha.before_eq_nil heq
  have hroom := h acts now time packet sending after (by rw [heq]; rfl)
  simpa only [Exchange.HasRoom, hd, sendings, List.append_nil] using hroom

/-- The acts of a call, one step for each. -/
theorem calls_steps {x : Exchange n} {acts : List Act} {d' : Deadline} {notes : List Note}
    (ha : Run (ActStep b) x.deadline acts d') (hs : x.setup = .finished)
    (hf : FindsRoom maxCount x acts) (hv : Attended b fd acts x.server notes v') :
    d'.recent = x.deadline.recent ∧ Run (Exchange.Step b fd (FindsRoom maxCount)) x notes
      { x with deadline := d', server := v', since := x.since ++ sendings acts } := by
  induction ha generalizing notes v' with
  | start =>
    obtain ⟨rfl, hsame⟩ := hv.nil
    refine ⟨rfl, ?_⟩
    rw [show x.since ++ sendings [] = x.since from List.append_nil _]
    exact Run.start.next (.other hsame)
  | @next acts es d1 d2 _ hstep ih =>
    obtain ⟨notes1, v1, notes2, rfl, hacts, hes⟩ := hv.append
    obtain ⟨hrecent, hrun⟩ := ih hf.left hacts
    have hnext := @Exchange.Step.call _ b fd (FindsRoom maxCount)
      { x with deadline := d1, server := v1, since := x.since ++ sendings acts } _ _ _ _
      hs hstep (hf.step hstep hrecent v1) hes
    refine ⟨?_, ?_⟩
    · rw [hstep.deadline_eq, Deadline.recent_incrementAll, hrecent]
    · rw [hstep.sendings_append, ← List.append_assoc]
      exact hrun.next hnext

/-- **Every call is a run of steps.** -/
theorem Exchange.Call.run {x x' : Exchange n} {notes : List Note}
    (h : Exchange.Call b fd (FindsRoom maxCount) x notes x') :
    Run (Exchange.Step b fd (FindsRoom maxCount)) x notes x' := by
  cases h with
  | @setupConnection _ _ s s' _ _ v' hs hd ha hcall hv =>
    obtain ⟨acts, past, hstep, hack, hacts, hpast⟩ :=
      ClientLearnProtocol.setupConnection_acts (b := b) s
    rw [hcall, ha, List.nil_append] at hacts
    rw [hcall, hd] at hstep
    rw [hacts] at hv ⊢
    obtain ⟨notes1, v1, notes2, rfl, hv1, hv2⟩ := hv.append
    have hrun : Run (Exchange.Step b fd (FindsRoom maxCount)) x ([] ++ notes1) _ :=
      Run.start.next (.ack hs hstep hack hv1)
    rw [sendTimes_append, ← List.append_assoc]
    rcases hpast with rfl | ⟨p, now, rfl, hp⟩
    · obtain ⟨rfl, hsame⟩ := hv2.nil
      have hend := (hrun.next (.other hsame)).next .finish
      simpa [sendTimes] using hend
    · have hend := (hrun.next (.clientId p now rfl hp hv2)).next .finish
      simpa [sendTimes] using hend
  | @read _ fuel _ s s' _ _ _ hs hd ha hcall hf hv =>
    obtain ⟨acts, hrun, hacts⟩ := ClientLearnProtocol.read_acts (b := b) fuel s
    rw [hcall, ha, List.nil_append] at hacts
    rw [hcall, hd, ← hacts] at hrun
    exact (calls_steps hrun hs hf hv).2
  | @write _ packet _ s s' _ _ _ hs hd ha hcall hf hv =>
    obtain ⟨acts, hrun, hacts⟩ := ClientLearnProtocol.write_acts (b := b) packet s
    rw [hcall, ha, List.nil_append] at hacts
    rw [hcall, hd, ← hacts] at hrun
    exact (calls_steps hrun hs hf hv).2
  | other hv => exact Run.start.next (.other hv)

/-- What the two deadlines of an exchange have counted: the client's all that was sent since
the handshake, when it counted it, the server's nothing but what was sent. -/
structure Within (fd : ℤ) (d : Deadline) (t0 : Timespec) (history : List Note) (x : Exchange n) :
    Prop where
  client : ∃ cs, x.deadline = d.incrementAll cs ∧ (x.since.map Posted.counted).Sublist cs ∧
    cs.Sublist (history.map Note.time)
  server : ∃ ss, x.server.deadlineOf fd = some (d.incrementAll ss) ∧ ss.Sublist x.sends
  times : x.sends.Sublist (t0 :: history.map Note.time)
  early : x.setup ≠ .finished → x.since = []
  most : x.handshake.length ≤ x.setup.most
  unmet : ∀ note ∈ history, note.met = false

namespace Within

variable {t0 : Timespec} {history : List Note} {x : Exchange n}

theorem recent_eq (h : Within fd d t0 history x) : x.deadline.recent = d.recent := by
  obtain ⟨cs, hcs, -⟩ := h.client
  rw [hcs, Deadline.recent_incrementAll]

theorem handshake_old (h : Within fd d t0 history x) {sending : Timespec}
    (hc : Clocked (t0 :: history.map Note.time))
    (hlast : ∀ last ∈ x.handshake.getLast?, d.recent sending last = false) :
    x.handshake.countP (d.recent sending) = 0 := by
  have hhandshake : Clocked x.handshake :=
    hc.sublist ((List.sublist_append_left _ _).trans h.times)
  rw [List.countP_eq_zero]
  intro t ht hr
  obtain ⟨init, last, hsplit⟩ : ∃ init last, x.handshake = init ++ [last] :=
    ⟨_, _, (List.dropLast_append_getLast (List.ne_nil_of_mem ht)).symm⟩
  have hold : d.recent sending last = false := hlast last (by simp [hsplit])
  rw [hsplit] at ht hhandshake
  rcases List.mem_append.mp ht with ht | ht
  · have hr' := (List.pairwise_append.mp (d.recent_lasting sending hhandshake)).2.2 t ht last
      List.mem_cons_self hr
    rw [hold] at hr'
    exact Bool.false_ne_true hr'
  · rw [List.mem_singleton.mp ht, hold] at hr
    exact Bool.false_ne_true hr

/-- Once the handshake is out of the window, what the client counts is more than what the
server does. -/
theorem room (h : Within fd d t0 history x) (hm : 0 < maxCount)
    (hq : d.queue = Queue.make maxCount) {sending : Timespec}
    (hc : Clocked (t0 :: history.map Note.time ++ [now]))
    (hd : x.deadline.breached b now = .ok false) (hroom : x.HasRoom maxCount now sending) :
    x.sends.countP (d.recent sending) < maxCount := by
  rw [Exchange.HasRoom, h.recent_eq] at hroom
  obtain ⟨hearly, htimely⟩ := hroom
  rw [Exchange.sends, List.countP_append, List.countP_map]
  by_cases hrecent : ∃ last ∈ x.handshake.getLast?, d.recent sending last = true
  · obtain ⟨last, hmem, hr⟩ := hrecent
    have hle : x.since.countP (d.recent sending ∘ Posted.sent) ≤ x.since.length :=
      List.countP_le_length
    have hlt := hearly last hmem hr
    omega
  · have hlast : ∀ last ∈ x.handshake.getLast?, d.recent sending last = false :=
      fun last hmem => Bool.eq_false_iff.mpr fun hr => hrecent ⟨last, hmem, hr⟩
    have hold := h.handshake_old (hc.sublist (List.sublist_append_left _ _)) hlast
    obtain ⟨cs, hcs, hsince, hsub⟩ := h.client
    have hpass : cs.countP (d.recent now) < maxCount := by
      have hclocked : Clocked (cs ++ [now]) :=
        hc.sublist ((hsub.cons t0).append (List.Sublist.refl _))
      rw [hcs, Deadline.breached_counts hm (Deadline.counts_incrementAll hm hq cs) hclocked,
        Deadline.recent_incrementAll] at hd
      simpa using hd
    have hcounted : x.since.countP (d.recent sending ∘ Posted.sent) ≤ cs.countP (d.recent now) :=
      calc x.since.countP (d.recent sending ∘ Posted.sent)
          ≤ x.since.countP (d.recent now ∘ Posted.counted) := List.countP_mono_left (htimely hlast)
        _ = (x.since.map Posted.counted).countP (d.recent now) := List.countP_map.symm
        _ ≤ cs.countP (d.recent now) := hsince.countP_le
    omega

/-- A packet of the handshake finds room, as there are at most two times before it. -/
theorem handshake_room (h : Within fd d t0 history x) (hm : 3 ≤ maxCount) (hs : x.setup ≠ .finished)
    (sending : Timespec) : x.sends.countP (d.recent sending) < maxCount := by
  rw [Exchange.sends, h.early hs, List.map_nil, List.append_nil]
  have hle : x.handshake.countP (d.recent sending) ≤ x.handshake.length := List.countP_le_length
  have hmost := h.most
  cases hsetup : x.setup with
  | fresh =>
    rw [hsetup, Setup.most] at hmost
    omega
  | acked =>
    rw [hsetup, Setup.most] at hmost
    omega
  | finished => exact absurd hsetup hs

/-- **Each step keeps what the deadlines have counted, and no packet of it is met.** -/
theorem acted (h : Within fd d t0 history x) (hm : 0 < maxCount) (hq : d.queue = Queue.make maxCount)
    {acts : List Act} {notes : List Note} (hv : Attended b fd acts x.server notes v')
    (hc : Clocked (t0 :: (history ++ notes).map Note.time))
    (hroom : Roomy d maxCount x.sends acts) {x' : Exchange n}
    (hserver : x'.server = v')
    (htimes : x'.sends = x.sends ++ sendTimes acts)
    (hclient : ∃ cs, x'.deadline = d.incrementAll cs ∧ (x'.since.map Posted.counted).Sublist cs ∧
      cs.Sublist ((history ++ notes).map Note.time))
    (hearly : x'.setup ≠ .finished → x'.since = []) (hmost : x'.handshake.length ≤ x'.setup.most) :
    Within fd d t0 (history ++ notes) x' := by
  obtain ⟨ss, hss, hsub⟩ := h.server
  have hmap : (history ++ notes).map Note.time = history.map Note.time ++ acts.map Act.time := by
    rw [List.map_append, hv.times]
  have hclocked : Clocked (x.sends ++ acts.map Act.time) := by
    rw [hmap, ← List.cons_append] at hc
    exact hc.sublist (h.times.append_right _)
  obtain ⟨hunmet, hcounted⟩ := hv.unmet hm hq hss hsub hclocked hroom
  refine ⟨hclient, ?_, ?_, hearly, hmost, fun note hnote => ?_⟩
  · rw [hserver, htimes]
    exact hcounted
  · rw [htimes, hmap, ← List.cons_append]
    exact h.times.append (sendTimes_sublist acts)
  · rcases List.mem_append.mp hnote with hnote | hnote
    · exact h.unmet note hnote
    · exact hunmet note hnote

/-- A step of the client's deadline, with what room there is for the packet that it ends in. -/
theorem stepped (h : Within fd d t0 history x) (hm : 0 < maxCount) (hq : d.queue = Queue.make maxCount)
    {acts : List Act} {d' : Deadline} (ha : ActStep b x.deadline acts d') {notes : List Note}
    (hv : Attended b fd acts x.server notes v')
    (hc : Clocked (t0 :: (history ++ notes).map Note.time))
    (hroom : ∀ now time packet sending, acts = [.looked now, .counted time, .sent packet sending] →
      x.deadline.breached b now = .ok false →
        x.sends.countP (d.recent sending) < maxCount)
    {x' : Exchange n} (hdeadline : x'.deadline = d') (hserver : x'.server = v')
    (htimes : x'.sends = x.sends ++ sendTimes acts)
    (hsince : ∀ cs, (x.since.map Posted.counted).Sublist cs →
      (x'.since.map Posted.counted).Sublist (cs ++ countedTimes acts))
    (hearly : x'.setup ≠ .finished → x'.since = []) (hmost : x'.handshake.length ≤ x'.setup.most) :
    Within fd d t0 (history ++ notes) x' := by
  refine h.acted hm hq hv hc ?_ hserver htimes ?_ hearly hmost
  · cases ha with
    | looked => trivial
    | counted => trivial
    | @sent now time packet sending hd => exact ⟨hroom now time packet sending rfl hd, trivial⟩
  · obtain ⟨cs, hcs, hsub, hle⟩ := h.client
    refine ⟨cs ++ countedTimes acts, ?_, hsince cs hsub, ?_⟩
    · rw [hdeadline, Deadline.incrementAll_append, ← hcs, ha.deadline_eq]
    · rw [List.map_append, hv.times]
      exact hle.append (countedTimes_sublist acts)

/-- **Each step keeps what the deadlines have counted, and no packet of it is met.** -/
theorem step (hm : 3 ≤ maxCount) (hq : d.queue = Queue.make maxCount)
    (h : Within fd d t0 history x) {notes : List Note} {x' : Exchange n}
    (hs : Exchange.Step b fd (FindsRoom maxCount) x notes x')
    (hc : Clocked (t0 :: (history ++ notes).map Note.time)) :
    Within fd d t0 (history ++ notes) x' := by
  cases hs with
  | ack hsetup ha hk hv =>
    have hfresh : x.setup ≠ .finished := by rw [hsetup]; decide
    have hsince := h.early hfresh
    refine h.stepped (by omega) hq ha hv hc
      (fun _ _ _ sending _ _ => h.handshake_room hm hfresh sending) rfl rfl ?_ ?_ ?_ ?_
    · simp [Exchange.sends, hsince]
    · rw [hsince]
      exact fun cs _ => List.nil_sublist _
    · exact fun _ => hsince
    · have hmost := h.most
      rw [hsetup] at hmost
      simpa [Setup.most] using Nat.add_le_add hmost ha.sendTimes_length
  | clientId p now hsetup hp hv =>
    have hacked : x.setup ≠ .finished := by rw [hsetup]; decide
    have hsince := h.early hacked
    obtain ⟨cs, hcs, hsub, hle⟩ := h.client
    refine h.acted (by omega) hq hv hc ⟨h.handshake_room hm hacked now, trivial⟩ rfl ?_ ?_ ?_ ?_
    · simp [Exchange.sends, hsince, sendTimes]
    · refine ⟨cs, hcs, hsub, hle.trans ?_⟩
      rw [List.map_append]
      exact List.sublist_append_left _ _
    · exact fun _ => hsince
    · have hmost := h.most
      rw [hsetup] at hmost
      simpa [Setup.most] using Nat.succ_le_succ hmost
  | finish =>
    rw [List.append_nil]
    exact ⟨h.client, h.server, h.times, fun ho => absurd rfl ho, h.most.trans x.setup.most_le,
      h.unmet⟩
  | call hsetup ha hf hv =>
    refine h.stepped (by omega) hq ha hv hc ?_ rfl rfl ?_ ?_ (fun ho => absurd hsetup ho) h.most
    · rintro now time packet sending rfl hd
      rw [List.map_append, hv.times] at hc
      have hroom : x.HasRoom maxCount now sending := by
        have hplace := hf [] now time packet sending [] rfl
        rwa [show sendings [] = [] from rfl, List.append_nil] at hplace
      refine h.room (by omega) hq (hc.sublist ?_) hd hroom
      exact (List.Sublist.refl _).append (List.singleton_sublist.mpr List.mem_cons_self)
    · simp [Exchange.sends, ha.sendings_sent]
    · intro cs hcs
      rw [List.map_append]
      exact hcs.append ha.sendings_counted
  | other hv =>
    rw [List.append_nil]
    exact ⟨h.client, by rw [hv]; exact h.server, h.times, h.early, h.most, h.unmet⟩

end Within

/-- **No packet of a client that keeps to its own deadline is met by a breached one.** -/
theorem calls_unmet {v0 : Polled n} {t0 : Timespec} {history : List Note} {x : Exchange n}
    (hm : 4 ≤ maxCount) (hq : d.queue = Queue.make maxCount)
    (h0 : v0.deadlineOf fd = some (d.increment t0))
    (hr : Run (Exchange.Call b fd (FindsRoom maxCount)) ⟨.fresh, d, v0, [t0], []⟩ history x)
    (hc : Clocked (t0 :: history.map Note.time)) : ∀ note ∈ history, note.met = false := by
  have hsteps : Run (Exchange.Step b fd (FindsRoom maxCount)) ⟨.fresh, d, v0, [t0], []⟩ history x :=
    hr.refine fun _ _ _ => Exchange.Call.run
  have hwithin : Clocked (t0 :: history.map Note.time) → Within fd d t0 history x := by
    refine hsteps.invariant (I := fun history x =>
      Clocked (t0 :: history.map Note.time) → Within fd d t0 history x) ?_ ?_
    · intro _
      exact ⟨⟨[], rfl, List.Sublist.refl _, List.Sublist.refl _⟩, ⟨[t0], h0, List.Sublist.refl _⟩,
        List.Sublist.refl _, fun _ => rfl, Nat.le_refl _, by simp⟩
    · intro history notes x x' ih hs hc
      have hbefore : Clocked (t0 :: history.map Note.time) := by
        rw [List.map_append, ← List.cons_append] at hc
        exact hc.sublist (List.sublist_append_left _ _)
      exact (ih hbefore).step (by omega) hq hs hc
  exact (hwithin hc).unmet

end Turns

/-! ### A client with a limit of four -/

/-- What the server makes of acts that nothing comes between. -/
def attend {n : ℕ} (b : Build) (fd : ℤ) : List Act → Polled n → Option (List Note × Polled n)
  | [], v => some ([], v)
  | .sent packet now :: acts, v =>
    match pollEvent b .single v (frameEvent b fd packet now) with
    | .error _ => none
    | .ok v' =>
      (attend b fd acts v').map fun r => (⟨now, met b v (frameEvent b fd packet now)⟩ :: r.1, r.2)
  | .looked now :: acts, v => (attend b fd acts v).map fun r => (⟨now, false⟩ :: r.1, r.2)
  | .counted now :: acts, v => (attend b fd acts v).map fun r => (⟨now, false⟩ :: r.1, r.2)

theorem attended_of_attend {n : ℕ} {b : Build} {fd : ℤ} {acts : List Act} {v v' : Polled n}
    {notes : List Note} (h : attend b fd acts v = some (notes, v')) :
    Attended b fd acts v notes v' := by
  induction acts generalizing v notes with
  | nil =>
    cases h
    exact .done _
  | cons act acts ih =>
    cases act with
    | looked now =>
      obtain ⟨⟨notes', v1⟩, hrest, heq⟩ := Option.map_eq_some_iff.mp h
      cases heq
      exact .looked now (ih hrest)
    | counted now =>
      obtain ⟨⟨notes', v1⟩, hrest, heq⟩ := Option.map_eq_some_iff.mp h
      cases heq
      exact .counted now (ih hrest)
    | sent packet now =>
      rw [attend] at h
      split at h
      · cases h
      · rename_i v1 hpoll
        obtain ⟨⟨notes', v2⟩, hrest, heq⟩ := Option.map_eq_some_iff.mp h
        cases heq
        exact .sent packet now hpoll (ih hrest)

def afterSetup : Calling 106 :=
  (ClientLearnProtocol.setupConnection ⟨true, .little⟩ (sampleCalling (Deadline.make 4))).2

/-- The client looks at its deadline and counts at `now`, and sends at `sending`. -/
def sampleWriting (now sending : ℤ) (s : Calling 106) : Calling 106 :=
  { sampleCalling s.self.deadline with
    clock := fun tick => if tick < 2 then ⟨now, 0⟩ else ⟨sending, 0⟩ }

def afterWrite (now sending : ℤ) (s : Calling 106) : Calling 106 :=
  (ClientLearnProtocol.write ⟨true, .little⟩ ⟨3, Commands.blank, []⟩ (sampleWriting now sending s)).2

def afterOne : Calling 106 := afterWrite 1 1 afterSetup

/-- The second packet is five seconds on its way from the count to the send. -/
def afterTwo : Calling 106 := afterWrite 20 25 afterOne

def afterThree : Calling 106 := afterWrite 26 26 afterTwo

theorem setup_sample :
    ∃ r, ClientLearnProtocol.setupConnection ⟨true, .little⟩ (sampleCalling (Deadline.make 4)) =
      (r, afterSetup) := ⟨_, rfl⟩

theorem write_sample (now sending : ℤ) (s : Calling 106) :
    ∃ r, ClientLearnProtocol.write ⟨true, .little⟩ ⟨3, Commands.blank, []⟩
      (sampleWriting now sending s) = (r, afterWrite now sending s) := ⟨_, rfl⟩

example : afterSetup.acts = [.looked ⟨1, 0⟩, .counted ⟨1, 0⟩, .sent ⟨3, Commands.Setup.ack, []⟩ ⟨1, 0⟩,
    .sent ⟨3, Commands.Setup.clientID, Commands.ascii "one".toList⟩ ⟨1, 0⟩] := by decide +kernel

/-- The acts of such a call. -/
def sampleActs (now sending : ℤ) : List Act :=
  [.looked ⟨now, 0⟩, .counted ⟨now, 0⟩, .sent ⟨3, Commands.blank, []⟩ ⟨sending, 0⟩]

theorem acts_one : afterOne.acts = sampleActs 1 1 := by decide +kernel

theorem acts_two : afterTwo.acts = sampleActs 20 25 := by decide +kernel

theorem acts_three : afterThree.acts = sampleActs 26 26 := by decide +kernel

theorem acts_met : (afterWrite 1 1 afterOne).acts = sampleActs 1 1 := by decide +kernel

theorem attend_sample_unmet : (attend ⟨true, .little⟩ 5
    (afterSetup.acts ++ (afterOne.acts ++ (afterTwo.acts ++ afterThree.acts)))
      (samplePolled 4)).map Prod.fst =
    some (([1, 1, 1, 1, 1, 1, 1, 20, 20, 25, 26, 26, 26].map fun time => ⟨⟨time, 0⟩, false⟩)) := by
  decide +kernel

theorem attend_sample_met : (attend ⟨true, .little⟩ 5
    (afterSetup.acts ++ (afterOne.acts ++ (afterWrite 1 1 afterOne).acts))
      (samplePolled 4)).map Prod.fst =
    some (List.replicate 9 ⟨⟨1, 0⟩, false⟩ ++ [⟨⟨1, 0⟩, true⟩]) := by decide +kernel

/-- The client sets its connection up and writes, all in one second. -/
theorem sample_calls {Allowed : Exchange 106 → List Act → Prop}
    (hf : ∀ x : Exchange 106, x.deadline = afterSetup.self.deadline →
      x.handshake = [⟨0, 0⟩, ⟨1, 0⟩, ⟨1, 0⟩] → x.since = [] → Allowed x afterOne.acts)
    {more : List Act} {notes : List Note} {v : Polled 106}
    (hv : Attended ⟨true, .little⟩ 5 (afterSetup.acts ++ (afterOne.acts ++ more))
      (samplePolled 4) notes v) :
    ∃ history rest x, notes = history ++ rest ∧
      Run (Exchange.Call ⟨true, .little⟩ 5 Allowed)
        ⟨.fresh, Deadline.make 4, samplePolled 4, [⟨0, 0⟩], []⟩ history x ∧
      x.setup = .finished ∧ x.deadline = afterOne.self.deadline ∧
      x.handshake = [⟨0, 0⟩, ⟨1, 0⟩, ⟨1, 0⟩] ∧ x.since = [⟨⟨1, 0⟩, ⟨1, 0⟩⟩] ∧
      Attended ⟨true, .little⟩ 5 more x.server rest v := by
  obtain ⟨notes1, v1, rest1, rfl, hsetup, hrest⟩ := hv.append
  obtain ⟨notes2, v2, rest, rfl, hwrite, hmore⟩ := hrest.append
  have hsends : sendTimes afterSetup.acts = [⟨1, 0⟩, ⟨1, 0⟩] := by decide +kernel
  obtain ⟨r1, hcall1⟩ := setup_sample
  obtain ⟨r2, hcall2⟩ := write_sample 1 1 afterSetup
  let x0 : Exchange 106 := ⟨.fresh, Deadline.make 4, samplePolled 4, [⟨0, 0⟩], []⟩
  have hset : Run (Exchange.Call ⟨true, .little⟩ 5 Allowed) x0 ([] ++ notes1) _ :=
    Run.start.next (.setupConnection rfl rfl rfl hcall1 hsetup)
  have hrun := hset.next (.write (s := sampleWriting 1 1 afterSetup) ⟨3, Commands.blank, []⟩
    rfl rfl rfl hcall2 (hf _ rfl (congrArg _ hsends) rfl) hwrite)
  refine ⟨_, rest, _, by rw [List.nil_append, List.append_assoc], hrun, rfl, rfl, congrArg _ hsends,
    ?_, hmore⟩
  rw [show (afterWrite 1 1 afterSetup).acts = sampleActs 1 1 from acts_one]
  rfl

theorem sample_write {Allowed : Exchange 106 → List Act → Prop} {x0 x : Exchange 106}
    {history notes : List Note} {s : Calling 106} {v : Polled 106} (now sending : ℤ)
    (hr : Run (Exchange.Call ⟨true, .little⟩ 5 Allowed) x0 history x) (hs : x.setup = .finished)
    (hd : x.deadline = s.self.deadline) (hf : Allowed x (afterWrite now sending s).acts)
    (hv : Attended ⟨true, .little⟩ 5 (afterWrite now sending s).acts x.server notes v) :
    Run (Exchange.Call ⟨true, .little⟩ 5 Allowed) x0 (history ++ notes)
      { x with
        deadline := (afterWrite now sending s).self.deadline
        server := v
        since := x.since ++ sendings (afterWrite now sending s).acts } := by
  obtain ⟨r, hcall⟩ := write_sample now sending s
  exact hr.next (.write (s := sampleWriting now sending s) ⟨3, Commands.blank, []⟩ hs hd.symm rfl
    hcall hf hv)

theorem single_place {before after : List Act} {now time sending : Timespec} {t t' : ℤ}
    {packet : NetworkPacket}
    (heq : sampleActs t t' = before ++ .looked now :: .counted time :: .sent packet sending :: after) :
    before = [] ∧ now = ⟨t, 0⟩ ∧ time = ⟨t, 0⟩ ∧ sending = ⟨t', 0⟩ := by
  have hlength := congrArg List.length heq
  simp only [sampleActs, List.length_append, List.length_cons, List.length_nil] at hlength
  obtain rfl := List.eq_nil_of_length_eq_zero (show before.length = 0 by omega)
  cases heq
  exact ⟨rfl, rfl, rfl, rfl⟩

theorem findsRoom_sample {x : Exchange 106} {t t' : ℤ} (h : x.HasRoom 4 ⟨t, 0⟩ ⟨t', 0⟩) :
    FindsRoom 4 x (sampleActs t t') := by
  intro before now time packet sending after heq
  obtain ⟨rfl, rfl, -, rfl⟩ := single_place heq
  rwa [show sendings [] = [] from rfl, List.append_nil]

/-- The first packet since the handshake is the fourth that the server counts, and the second
is sent when the handshake is out of the window. -/
theorem calls_unmet_sample : ∃ notes v,
    Attended ⟨true, .little⟩ 5
      (afterSetup.acts ++ (afterOne.acts ++ (afterTwo.acts ++ afterThree.acts))) (samplePolled 4)
      notes v ∧ ∀ note ∈ notes, note.met = false := by
  obtain ⟨⟨notes, v⟩, hv, hnotes⟩ := Option.map_eq_some_iff.mp attend_sample_unmet
  have hattended := attended_of_attend hv
  have hone : ∀ x : Exchange 106, x.deadline = afterSetup.self.deadline →
      x.handshake = [⟨0, 0⟩, ⟨1, 0⟩, ⟨1, 0⟩] → x.since = [] → FindsRoom 4 x afterOne.acts := by
    intro x hd hh hs
    rw [acts_one]
    refine findsRoom_sample ?_
    rw [Exchange.HasRoom, hd, hh, hs]
    decide +kernel
  obtain ⟨history, rest, x, rfl, hrun, hsetup, hdeadline, hhandshake, hsince, hrest⟩ :=
    sample_calls hone hattended
  obtain ⟨notes2, v2, notes3, rfl, htwo, hthree⟩ := hrest.append
  have hrun2 := sample_write 20 25 hrun hsetup hdeadline (by
    rw [show (afterWrite 20 25 afterOne).acts = sampleActs 20 25 from acts_two]
    refine findsRoom_sample ?_
    rw [Exchange.HasRoom, hdeadline, hhandshake, hsince]
    decide +kernel) htwo
  have hrun3 := sample_write 26 26 hrun2 hsetup rfl (by
    rw [show (afterWrite 26 26 (afterWrite 20 25 afterOne)).acts = sampleActs 26 26 from acts_three]
    refine findsRoom_sample ?_
    simp only [Exchange.HasRoom]
    rw [show (afterWrite 20 25 afterOne).acts = sampleActs 20 25 from acts_two, hhandshake, hsince]
    decide +kernel) hthree
  rw [List.append_assoc] at hrun3
  refine ⟨_, v, hattended, calls_unmet (d := Deadline.make 4) (by decide) rfl (deadlineOf_sample 4)
    hrun3 ?_⟩
  replace hnotes : history ++ (notes2 ++ notes3) = _ := hnotes
  rw [hnotes]
  exact ⟨by decide, by decide⟩

/-- Each packet is sent at the time at which it is counted. -/
def Prompt (acts : List Act) : Prop :=
  ∀ before now time packet sending after,
    acts = before ++ .looked now :: .counted time :: .sent packet sending :: after → sending = time

/-- The second packet of a client that writes twice behind the handshake is met by a breached
deadline. -/
theorem calls_met :
    ¬∀ (n : ℕ) (b : Build) (fd : ℤ) (d : Deadline) (maxCount : ℕ) (t0 : Timespec) (v0 : Polled n)
      (history : List Note) (x : Exchange n), 4 ≤ maxCount → d.queue = Queue.make maxCount →
      v0.deadlineOf fd = some (d.increment t0) →
      Run (Exchange.Call b fd fun _ acts => Prompt acts) ⟨.fresh, d, v0, [t0], []⟩ history x →
      Clocked (t0 :: history.map Note.time) → ∀ note ∈ history, note.met = false := by
  intro h
  have hprompt : Prompt (sampleActs 1 1) := by
    intro before now time packet sending after heq
    obtain ⟨-, -, rfl, rfl⟩ := single_place heq
    rfl
  obtain ⟨⟨notes, v⟩, hv, hnotes⟩ := Option.map_eq_some_iff.mp attend_sample_met
  obtain ⟨history, rest, x, rfl, hrun, hsetup, hdeadline, -, -, hrest⟩ :=
    @sample_calls (fun _ acts => Prompt acts) (fun x _ _ _ => by rw [acts_one]; exact hprompt) _ _ _
      (attended_of_attend hv)
  replace hnotes : history ++ rest = List.replicate 9 ⟨⟨1, 0⟩, false⟩ ++ [⟨⟨1, 0⟩, true⟩] := hnotes
  have hlast := sample_write 1 1 hrun hsetup hdeadline (by rw [acts_met]; exact hprompt) hrest
  have hmet := h 106 ⟨true, .little⟩ 5 (Deadline.make 4) 4 ⟨0, 0⟩ (samplePolled 4) _ _ (by decide)
    rfl (deadlineOf_sample 4) hlast (by rw [hnotes]; exact ⟨by decide, by decide⟩) ⟨⟨1, 0⟩, true⟩
    (by rw [hnotes]; decide)
  exact absurd hmet (by decide)

end PollServer
