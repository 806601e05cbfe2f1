import PollServer.Limit.Deadline
import PollServer.Serve.Setup

/-! The heartbeats that a client's `Read` consumes. Each is counted before its reply is
written, and the reply is a packet like any other: the deadline may refuse it. -/

namespace PollServer

open Lib StopM

namespace ClientLearnProtocol

section HeartBeats

variable {n : ℕ} (b : Build)

/-- The client that has read a heartbeat and has counted it, if that is what a turn of
`Read` begins with. -/
def heartBeat (s : Calling n) : Option (Calling n) :=
  match look b s with
  | (.ok false, s) =>
    match readFrom b s with
    | (.ok p, s) => if p.command = Commands.heartBeat then some (count s).2 else none
    | (.error _, _) => none
  | (.ok true, _) => none
  | (.error _, _) => none

def heartBeatReply (s : Calling n) : NetworkPacket := ⟨s.self.server, Commands.blank, []⟩

/-- The heartbeats that a call of `Read` consumes: the client behind the count of each. -/
def heartBeats : ℕ → Calling n → List (Calling n)
  | 0, _ => []
  | fuel + 1, s =>
    match heartBeat b s with
    | none => []
    | some t =>
      t ::
        match write b (heartBeatReply t) t with
        | (.ok _, s) => heartBeats fuel s
        | (.error _, _) => []

/-- The client in front of the turn of a call of `Read` that consumes no heartbeat. -/
def lastTurn : ℕ → Calling n → Option (Calling n)
  | 0, _ => none
  | fuel + 1, s =>
    match heartBeat b s with
    | none => some s
    | some t =>
      match write b (heartBeatReply t) t with
      | (.ok _, s) => lastTurn fuel s
      | (.error _, _) => none

/-- `Write` would not refuse a packet. -/
def Unbreached (s : Calling n) : Prop := s.self.deadline.breached b (s.clock s.ticks) = .ok false

/-- The reply gets through if it is sent. -/
def GetsThrough (s : Calling n) : Prop :=
  passes s.self.timeout s.wire.polls = true ∧
    ∃ sent, sendRaw b ((heartBeatReply s).marshall b.order) (s.sends.headD []) = .ok sent ∧
      sent.result.isSuccess = true

/-- As many replies were sent when a heartbeat was read as there had been heartbeats before
it, and as many as there were heartbeats before anything else was read and when the call
returned. -/
structure Answered (fuel : ℕ) (s : Calling n) : Prop where
  before : ∀ front t back, heartBeats b fuel s = front ++ t :: back →
    sentPackets t.acts = sentPackets s.acts ++ front.map heartBeatReply
  last : ∀ t ∈ lastTurn b fuel s, sentPackets t.acts =
    sentPackets s.acts ++ (heartBeats b fuel s).map heartBeatReply
  all : sentPackets (read b fuel s).2.acts =
    sentPackets s.acts ++ (heartBeats b fuel s).map heartBeatReply

end HeartBeats

variable {n : ℕ} {b : Build} {s t : Calling n} {fuel : ℕ}

theorem sentPackets_append (acts more : List Act) :
    sentPackets (acts ++ more) = sentPackets acts ++ sentPackets more := List.filterMap_append

/-- Nothing was sent. -/
def Silent (s s' : Calling n) : Prop := sentPackets s'.acts = sentPackets s.acts

theorem look_silent (s : Calling n) : Silent s (look b s).2 := by
  rw [Silent, look_apply, sentPackets_append]
  exact List.append_nil _

theorem readFrom_silent (s : Calling n) : Silent s (readFrom b s).2 := rfl

theorem count_silent (s : Calling n) : Silent s (count s).2 := by
  rw [Silent, count, sentPackets_append]
  exact List.append_nil _

theorem heartBeat_some (h : heartBeat b s = some t) : ∃ s1 p s2, look b s = (.ok false, s1) ∧
    readFrom b s1 = (.ok p, s2) ∧ p.command = Commands.heartBeat ∧ t = (count s2).2 := by
  unfold heartBeat at h
  rcases hlook : look b s with ⟨stop | _ | _, s1⟩
  · simp [hlook] at h
  · rcases hread : readFrom b s1 with ⟨stop | p, s2⟩
    · simp [hlook, hread] at h
    · simp only [hlook, hread] at h
      split_ifs at h with hp
      exact ⟨s1, p, s2, rfl, hread, hp, (Option.some.inj h).symm⟩
  · simp [hlook] at h

theorem heartBeat_silent (h : heartBeat b s = some t) : Silent s t := by
  obtain ⟨s1, p, s2, hlook, hread, -, rfl⟩ := heartBeat_some h
  have h1 := look_silent (b := b) s
  have h2 := readFrom_silent (b := b) s1
  rw [hlook] at h1
  rw [hread] at h2
  exact (count_silent s2).trans (h2.trans h1)

theorem read_heartBeat (h : heartBeat b s = some t) (fuel : ℕ) :
    read b (fuel + 1) s = (do let _ ← write b (heartBeatReply t); read b fuel : ClientM n NetworkPacket) t := by
  obtain ⟨s1, p, s2, hlook, hread, hp, rfl⟩ := heartBeat_some h
  rw [read, bind_ok hlook, if_neg Bool.false_ne_true, bind_ok hread,
    bind_ok (show count s2 = (.ok (), (count s2).2) from rfl), if_pos hp]
  rfl

theorem read_silent (h : heartBeat b s = none) (fuel : ℕ) : Silent s (read b (fuel + 1) s).2 := by
  have hquiet := look_silent (b := b) s
  rcases hlook : look b s with ⟨stop | _ | _, s1⟩
  · rw [hlook] at hquiet
    rw [read, bind_error hlook]
    exact hquiet
  · rw [hlook] at hquiet
    rw [read, bind_ok hlook, if_neg Bool.false_ne_true]
    have hread := readFrom_silent (b := b) s1
    rcases hfrom : readFrom b s1 with ⟨stop | p, s2⟩
    · rw [hfrom] at hread
      rw [bind_error hfrom]
      exact hread.trans hquiet
    · rw [hfrom] at hread
      have hp : ¬p.command = Commands.heartBeat := by
        intro hp
        simp [heartBeat, hlook, hfrom, hp] at h
      rw [bind_ok hfrom, bind_ok (show count s2 = (.ok (), (count s2).2) from rfl), if_neg hp]
      exact (count_silent s2).trans (hread.trans hquiet)
  · rw [hlook] at hquiet
    rw [read, bind_ok hlook, if_pos rfl]
    exact hquiet

theorem write_answers (hu : Unbreached b t) (hg : GetsThrough b t) :
    ∃ r s', write b (heartBeatReply t) t = (.ok r, s') ∧
      sentPackets s'.acts = sentPackets t.acts ++ [heartBeatReply t] := by
  obtain ⟨hpass, sent, hsend, hsuccess⟩ := hg
  obtain ⟨s1, hlook, hs1⟩ : ∃ s1, look b t = (.ok false, s1) ∧
      s1 = { t with ticks := t.ticks + 1, acts := t.acts ++ [.looked (t.clock t.ticks)] } :=
    ⟨_, by rw [look_apply, hu], rfl⟩
  have hquiet : Silent t (count s1).2 := by
    have h1 := look_silent (b := b) t
    rw [hlook] at h1
    exact (count_silent s1).trans h1
  have hpoll : onWire (fun timeout _ => pollIn timeout) (count s1).2 =
      (.ok true, { (count s1).2 with
        wire := { t.wire with polls := pollsAfter t.self.timeout t.wire.polls } }) := by
    have hpollIn := pollIn_passes t.self.timeout hpass
    rw [hs1]
    simp only [onWire, count, hpollIn]
  rw [write, bind_ok hlook, if_neg Bool.false_ne_true,
    bind_ok (show count s1 = (.ok (), (count s1).2) from rfl), writeTo, bind_ok hpoll, if_pos rfl]
  have hsends : (count s1).2.sends = t.sends := by rw [hs1]; rfl
  simp only [sendOut, hsends, hsend, hsuccess, if_pos]
  refine ⟨_, _, rfl, ?_⟩
  dsimp only
  rw [sentPackets_append, hquiet]
  rfl

theorem write_refused (hu : ¬Unbreached b t) : Silent t (write b (heartBeatReply t) t).2 := by
  have hquiet := look_silent (b := b) t
  rcases hlook : look b t with ⟨stop | _ | _, s1⟩
  · rw [hlook] at hquiet
    rw [write, bind_error hlook]
    exact hquiet
  · rw [look_apply] at hlook
    exact absurd (Prod.mk.inj hlook).1 hu
  · rw [hlook] at hquiet
    rw [write, bind_ok hlook, if_pos rfl]
    exact hquiet

theorem heartBeats_none (h : heartBeat b s = none) (fuel : ℕ) : heartBeats b (fuel + 1) s = [] := by
  simp only [heartBeats, h]

theorem heartBeats_replied (h : heartBeat b s = some t) {r : Result} {s' : Calling n}
    (hw : write b (heartBeatReply t) t = (.ok r, s')) (fuel : ℕ) :
    heartBeats b (fuel + 1) s = t :: heartBeats b fuel s' := by
  simp only [heartBeats, h, hw]

theorem lastTurn_none (h : heartBeat b s = none) (fuel : ℕ) : lastTurn b (fuel + 1) s = some s := by
  simp only [lastTurn, h]

theorem lastTurn_replied (h : heartBeat b s = some t) {r : Result} {s' : Calling n}
    (hw : write b (heartBeatReply t) t = (.ok r, s')) (fuel : ℕ) :
    lastTurn b (fuel + 1) s = lastTurn b fuel s' := by
  simp only [lastTurn, h, hw]

theorem heartBeats_stopped (h : heartBeat b s = some t) {stop : Stop} {s' : Calling n}
    (hw : write b (heartBeatReply t) t = (.error stop, s')) (fuel : ℕ) :
    heartBeats b (fuel + 1) s = [t] := by
  simp only [heartBeats, h, hw]

theorem mem_heartBeats (h : heartBeat b s = some t) (fuel : ℕ) : t ∈ heartBeats b (fuel + 1) s := by
  rcases hw : write b (heartBeatReply t) t with ⟨stop | r, s'⟩
  · rw [heartBeats_stopped h hw]
    exact List.mem_cons_self
  · rw [heartBeats_replied h hw]
    exact List.mem_cons_self

theorem silent_next (fuel : ℕ) (s : Calling n) :
    (heartBeats b fuel s = [] ∧ Silent s (read b fuel s).2) ∨
      ∃ t back, heartBeats b fuel s = t :: back ∧ Silent s t := by
  cases fuel with
  | zero => exact Or.inl ⟨rfl, rfl⟩
  | succ fuel =>
    cases h : heartBeat b s with
    | none => exact Or.inl ⟨heartBeats_none h fuel, read_silent h fuel⟩
    | some t =>
      right
      rcases hw : write b (heartBeatReply t) t with ⟨stop | r, s'⟩
      · exact ⟨t, _, heartBeats_stopped h hw fuel, heartBeat_silent h⟩
      · exact ⟨t, _, heartBeats_replied h hw fuel, heartBeat_silent h⟩

theorem answered_cons (h : heartBeat b s = some t) {r : Result} {s' : Calling n}
    (hw : write b (heartBeatReply t) t = (.ok r, s'))
    (hsent : sentPackets s'.acts = sentPackets t.acts ++ [heartBeatReply t]) (fuel : ℕ) :
    Answered b (fuel + 1) s ↔ Answered b fuel s' := by
  have hquiet := heartBeat_silent h
  have hbeats := heartBeats_replied h hw fuel
  have hturn := lastTurn_replied h hw fuel
  have hread : read b (fuel + 1) s = read b fuel s' := by
    rw [read_heartBeat h, bind_ok hw]
  rw [hquiet] at hsent
  constructor
  · intro ha
    refine ⟨fun front u back hfront => ?_, fun u hu => ?_, ?_⟩
    · have hbefore := ha.before (t :: front) u back (by rw [hbeats, hfront]; rfl)
      rw [hsent, List.append_assoc]
      exact hbefore
    · have hlast := ha.last u (by rwa [hturn])
      rw [hbeats] at hlast
      rw [hsent, List.append_assoc]
      exact hlast
    · have hall := ha.all
      rw [hread, hbeats] at hall
      rw [hsent, List.append_assoc]
      exact hall
  · intro ha
    refine ⟨fun front u back hfront => ?_, fun u hu => ?_, ?_⟩
    · rw [hbeats] at hfront
      cases front with
      | nil =>
        obtain ⟨rfl, -⟩ := List.cons.inj hfront
        exact hquiet.trans (List.append_nil _).symm
      | cons t' front =>
        obtain ⟨rfl, hrest⟩ := List.cons.inj hfront
        have hbefore := ha.before front u back hrest
        rw [hsent, List.append_assoc] at hbefore
        exact hbefore
    · rw [hturn] at hu
      have hlast := ha.last u hu
      rw [hsent, List.append_assoc] at hlast
      rw [hbeats]
      exact hlast
    · have hall := ha.all
      rw [hsent, List.append_assoc] at hall
      rw [hread, hbeats]
      exact hall

/-- Before the next heartbeat, and before the call returns, a reply has been sent. -/
theorem Answered.unbreached (h : heartBeat b s = some t) (ha : Answered b (fuel + 1) s) :
    Unbreached b t := by
  by_contra hu
  have hrefused := write_refused hu
  have hmore : ∀ u : Calling n, Silent s u → sentPackets u.acts ≠ sentPackets s.acts ++ [heartBeatReply t] := by
    intro u hquiet heq
    rw [hquiet] at heq
    simp at heq
  rcases hw : write b (heartBeatReply t) t with ⟨stop | r, s'⟩
  · rw [hw] at hrefused
    have hall := ha.all
    rw [read_heartBeat h, bind_error hw, heartBeats_stopped h hw] at hall
    exact hmore s' (hrefused.trans (heartBeat_silent h)) hall
  · rw [hw] at hrefused
    have hquiet : Silent s s' := hrefused.trans (heartBeat_silent h)
    have hbeats := heartBeats_replied h hw fuel
    rcases silent_next fuel s' with ⟨hnil, hlast⟩ | ⟨u, back, hcons, hnext⟩
    · have hall := ha.all
      rw [read_heartBeat h, bind_ok hw, hbeats, hnil] at hall
      exact hmore _ (hlast.trans hquiet) hall
    · exact hmore u (hnext.trans hquiet) (ha.before [t] u back (by rw [hbeats, hcons]; rfl))

/-- **Every heartbeat is answered**, with the sends succeeding, if and only if no heartbeat
fills the deadline by being counted. -/
theorem read_answered (fuel : ℕ) (s : Calling n)
    (hg : ∀ t ∈ heartBeats b fuel s, Unbreached b t → GetsThrough b t) :
    Answered b fuel s ↔ ∀ t ∈ heartBeats b fuel s, Unbreached b t := by
  induction fuel generalizing s with
  | zero =>
    refine iff_of_true ⟨fun front t back h => ?_, fun t ht => ?_, ?_⟩
      fun t ht => absurd ht List.not_mem_nil
    · simp [heartBeats] at h
    · cases ht
    · exact (List.append_nil _).symm
  | succ fuel ih =>
    cases h : heartBeat b s with
    | none =>
      have hnil := heartBeats_none h fuel
      rw [hnil]
      refine iff_of_true ⟨fun front t back hf => ?_, fun t ht => ?_, ?_⟩
        fun t ht => absurd ht List.not_mem_nil
      · simp [hnil] at hf
      · rw [lastTurn_none h, Option.mem_some_iff] at ht
        rw [hnil, ← ht]
        exact (List.append_nil _).symm
      · rw [hnil]
        exact (read_silent h fuel).trans (List.append_nil _).symm
    | some t =>
      by_cases hu : Unbreached b t
      · obtain ⟨r, s', hw, hsent⟩ := write_answers hu (hg t (mem_heartBeats h fuel) hu)
        rw [heartBeats_replied h hw] at hg ⊢
        apply (answered_cons h hw hsent fuel).trans
        apply (ih s' fun u hm => hg u (List.mem_cons_of_mem t hm)).trans
        constructor
        · intro hall u hm
          rcases List.mem_cons.mp hm with rfl | hm
          · exact hu
          · exact hall u hm
        · exact fun hall u hm => hall u (List.mem_cons_of_mem t hm)
      · exact iff_of_false (fun ha => hu (ha.unbreached h)) fun hall => hu (hall t (mem_heartBeats h fuel))

/-- After the times of a clock, the deadline refuses a packet once as many of them as it
takes are recent. -/
theorem unbreached_iff {times : List Timespec} {m : ℕ} (hm : 0 < m)
    (h : t.self.deadline.Counts m times) (hc : Clocked (times ++ [t.clock t.ticks])) :
    Unbreached b t ↔ times.countP (t.self.deadline.recent (t.clock t.ticks)) < m := by
  rw [Unbreached, Deadline.breached_counts hm h hc]
  simp

end ClientLearnProtocol

/-- A client to whom a heartbeat has come, after its deadline has counted `count` packets. -/
def sampleHeard (count : ℕ) : Calling 106 :=
  { sampleCalling ((Deadline.make deadlineMaxCountDefault).incrementAll (List.replicate count ⟨1, 0⟩)) with
    wire := ⟨⟨sampleBuffer, [.arrive (0 :: 4 :: Commands.heartBeat)], []⟩, []⟩ }

namespace ClientLearnProtocol

/-- A client to whom two heartbeats and a `SEND` have come. -/
def sampleBeaten : Calling 106 :=
  { sampleCalling (Deadline.make deadlineMaxCountDefault) with
    wire := ⟨⟨sampleBuffer, [.arrive (0 :: 4 :: Commands.heartBeat ++ 0 :: 4 :: Commands.heartBeat ++
      0 :: 4 :: Commands.send)], []⟩, []⟩ }

/-- Both are answered before the `SEND` is read. -/
theorem read_answered_two : Answered ⟨true, .little⟩ 3 sampleBeaten ∧
    (heartBeats ⟨true, .little⟩ 3 sampleBeaten).length = 2 ∧
    (read ⟨true, .little⟩ 3 sampleBeaten).1 = .ok ⟨3, Commands.send, []⟩ := by
  have htwo : ∀ t ∈ heartBeats ⟨true, .little⟩ 3 sampleBeaten,
      Unbreached ⟨true, .little⟩ t ∧ GetsThrough ⟨true, .little⟩ t := by
    intro t ht
    rcases List.mem_pair.mp (show t ∈ [_, _] from ht) with rfl | rfl <;>
      exact ⟨rfl, rfl, _, rfl, rfl⟩
  exact ⟨(read_answered 3 sampleBeaten fun t ht _ => (htwo t ht).2).mpr fun t ht => (htwo t ht).1,
    rfl, by decide +kernel⟩

set_option maxRecDepth 4000 in
/-- The heartbeat is the twenty-fifth packet of ten seconds. -/
theorem read_unanswered :
    ¬∀ (n : ℕ) (b : Build) (fuel : ℕ) (s : Calling n),
      (∀ t ∈ heartBeats b fuel s, Unbreached b t → GetsThrough b t) → Answered b fuel s := by
  intro h
  have ha := h 106 ⟨true, .little⟩ 2 (sampleHeard 24) (fun t ht _ => by
    rw [List.mem_singleton.mp (show t ∈ [_] from ht)]
    exact ⟨rfl, _, rfl, rfl⟩)
  have hall := ha.all
  exact absurd (congrArg List.length hall) (by decide)

end ClientLearnProtocol

end PollServer
