import PollServer.Limit.Counting
import PollServer.Serve.Reception

/-! The server's rate limit: the turns of `onReadPoll` for one client, over any number of
calls, with what the clock gave them. -/

namespace PollServer

open Lib StopM

/-- What a turn does for a client: the clock is read for the check of its deadline and for
each count. For a packet that is dispatched it is not read again, and the time is that of the
last count before it. -/
inductive Reading where
  | checked (now : Timespec)
  | counted (now : Timespec)
  | dispatched (now : Timespec) (packet : NetworkPacket)
  deriving DecidableEq

namespace Reading

def clock? : Reading → Option Timespec
  | checked now => some now
  | counted now => some now
  | dispatched _ _ => none

def count? : Reading → Option Timespec
  | counted now => some now
  | _ => none

def dispatch? : Reading → Option (Timespec × NetworkPacket)
  | dispatched now packet => some (now, packet)
  | _ => none

end Reading

/-- What the clock gave. -/
def clockTimes (history : List Reading) : List Timespec := history.filterMap Reading.clock?

/-- When the packets of the client were counted. -/
def countTimes (history : List Reading) : List Timespec := history.filterMap Reading.count?

/-- The packets of the client that were dispatched, and when. -/
def dispatches (history : List Reading) : List (Timespec × NetworkPacket) :=
  history.filterMap Reading.dispatch?

def dispatchTimes (history : List Reading) : List Timespec := (dispatches history).map Prod.fst

theorem clockTimes_append (history more : List Reading) :
    clockTimes (history ++ more) = clockTimes history ++ clockTimes more :=
  List.filterMap_append

theorem countTimes_append (history more : List Reading) :
    countTimes (history ++ more) = countTimes history ++ countTimes more :=
  List.filterMap_append

theorem dispatches_append (history more : List Reading) :
    dispatches (history ++ more) = dispatches history ++ dispatches more :=
  List.filterMap_append

theorem dispatchTimes_append (history more : List Reading) :
    dispatchTimes (history ++ more) = dispatchTimes history ++ dispatchTimes more := by
  rw [dispatchTimes, dispatches_append, List.map_append]
  rfl

theorem countTimes_sublist (history : List Reading) :
    (countTimes history).Sublist (clockTimes history) := by
  induction history with
  | nil => exact List.Sublist.slnil
  | cons reading history ih =>
    cases reading with
    | checked now => exact ih.cons _
    | counted now => exact ih.cons_cons _
    | dispatched now packet => exact ih

section Turns

variable {n : ℕ} (b : Build) (shot : Shot) (socket : ℤ)

def Polled.deadlineOf (v : Polled n) : Option Deadline :=
  (v.clients.clientInfos.find socket).map ClientInfo.deadline

/-- The client, if the turn comes to check its deadline. -/
def checkedClient (v : Polled n) (event : EpollEvent) : Option ClientInfo :=
  if event.fd = socket ∧ event.hangUp = false then
    (v.clients.clientInfos.find socket).filter fun c => !c.terminateNow
  else none

/-- The client, if the turn reads from it. -/
def readFrom (v : Polled n) (event : EpollEvent) : Option ClientInfo :=
  (checkedClient socket v event).filter fun c =>
    c.deadlineBreach b event.now = .ok false ∧ event.readable

/-- What the read of a turn starts from. -/
def readStart (v : Polled n) (event : EpollEvent) (clientInfo : ClientInfo) : ReadState n :=
  ⟨⟨v.buffer, event.recv, []⟩,
    { Session.start clientInfo event.clock with
      readList := v.readList, packetsToWrite := v.clients.packetsToWrite }⟩

/-- The session that a read ends in. -/
def readSession (v : Polled n) (event : EpollEvent) (clientInfo : ClientInfo) : Session :=
  (readForSingleSocket b shot event.fd (readStart v event clientInfo)).2.session

/-- The times of the counts of a read. -/
def readCounts (v : Polled n) (event : EpollEvent) (clientInfo : ClientInfo) : List Timespec :=
  (List.range (readSession b shot v event clientInfo).ticks).map event.clock

/-- The packets that a read dispatches. The first count is at the time `event.clock 0`. -/
def readDispatches (v : Polled n) (event : EpollEvent) (clientInfo : ClientInfo) :
    List (Timespec × NetworkPacket) :=
  (readSession b shot v event clientInfo).log.map fun entry =>
    (event.clock (entry.1 - 1), entry.2)

/-- What a read does for the client that it reads from. -/
def readReadings (v : Polled n) (event : EpollEvent) (clientInfo : ClientInfo) : List Reading :=
  (readCounts b shot v event clientInfo).map .counted ++
    (readDispatches b shot v event clientInfo).map fun entry => .dispatched entry.1 entry.2

/-- What a turn does for the client of `socket`. -/
def readings (v : Polled n) (event : EpollEvent) : List Reading :=
  ((checkedClient socket v event).toList.map fun _ => .checked event.now) ++
    (readFrom b socket v event).toList.flatMap fun c => readReadings b shot v event c

/-- **The condition under which a multi-shot read keeps to the limit.** Each packet behind
the first of those that it takes in comes when the deadline would still let it pass. -/
def Paced (v : Polled n) (event : EpollEvent) : Prop :=
  shot = .multi → ∀ c ∈ readFrom b socket v event,
    ∀ j, 1 ≤ j → j < lengthFields b n event.recv →
      (c.deadline.incrementAll ((List.range j).map event.clock)).breached b (event.clock j) =
        .ok false

/-- The turns of the loop of `onReadPoll` that `Allowed` allows, and between them whatever
leaves the client its deadline. -/
inductive RateStep (Allowed : Polled n → EpollEvent → Prop) :
    Polled n → List Reading → Polled n → Prop where
  | turn {v v' : Polled n} (event : EpollEvent) (ha : Allowed v event)
      (h : pollEvent b shot v event = .ok v') :
      RateStep Allowed v (readings b shot socket v event) v'
  | other {v v' : Polled n} (h : v'.deadlineOf socket = v.deadlineOf socket) :
      RateStep Allowed v [] v'

variable {b shot socket} {v v' : Polled n} {event : EpollEvent} {c : ClientInfo}

theorem checkedClient_eq_some (h : checkedClient socket v event = some c) :
    event.fd = socket ∧ event.hangUp = false ∧ v.clients.clientInfos.find event.fd = some c ∧
      c.terminateNow = false := by
  unfold checkedClient at h
  split_ifs at h with hs
  rw [Option.filter_eq_some_iff] at h
  obtain ⟨rfl, hu⟩ := hs
  exact ⟨rfl, hu, h.1, by simpa using h.2⟩

theorem clockTimes_readReadings :
    clockTimes (readReadings b shot v event c) = readCounts b shot v event c := by
  simp [clockTimes, readReadings, List.filterMap_map, Function.comp_def, Reading.clock?]

theorem countTimes_readReadings :
    countTimes (readReadings b shot v event c) = readCounts b shot v event c := by
  simp [countTimes, readReadings, List.filterMap_map, Function.comp_def, Reading.count?]

theorem dispatches_readReadings :
    dispatches (readReadings b shot v event c) = readDispatches b shot v event c := by
  simp [dispatches, readReadings, List.filterMap_map, Function.comp_def, Reading.dispatch?]

theorem readings_read (hr : readFrom b socket v event = some c) :
    readings b shot socket v event = .checked event.now :: readReadings b shot v event c := by
  have h := (Option.filter_eq_some_iff.mp hr).1
  simp [readings, h, hr]

theorem readings_unread (hr : readFrom b socket v event = none) :
    countTimes (readings b shot socket v event) = [] ∧
      dispatches (readings b shot socket v event) = [] := by
  rw [readings, hr]
  constructor <;> cases checkedClient socket v event <;> rfl

/-- What a turn does once it has come to check the deadline of a client. -/
theorem pollEvent_checked (h : checkedClient socket v event = some c) :
    pollEvent b shot v event = (do
      if ← c.deadlineBreach b event.now then
        return { v with socketsToTerminate := v.socketsToTerminate.insert event.fd }
      else if event.readable then readClient b shot event c v
      else return v) := by
  obtain ⟨rfl, hu, hfind, hnow⟩ := checkedClient_eq_some h
  simp only [pollEvent, hu, hfind, hnow]
  rfl

theorem readClient_ok (h : readClient b shot event c v = .ok v') :
    ∃ result s, readForSingleSocket b shot event.fd (readStart v event c) = (.ok result, s) ∧
      v'.clients = { v.clients with
        clientInfos := v.clients.clientInfos.put s.session.clientInfo
        packetsToWrite := s.session.packetsToWrite } ∧
      v'.readList = s.session.readList ∧ v'.dispatched = v.dispatched ++ s.session.dispatched := by
  rcases hrun : readForSingleSocket b shot event.fd (readStart v event c) with ⟨e | result, s⟩
  · unfold readStart at hrun
    simp only [readClient, hrun] at h
    cases h
  · refine ⟨result, s, rfl, ?_⟩
    unfold readStart at hrun
    simp only [readClient, hrun] at h
    cases h
    exact ⟨rfl, rfl, rfl⟩

theorem readClient_deadline (hfind : v.clients.clientInfos.find event.fd = some c)
    (h : readClient b shot event c v = .ok v') (s : ℤ) :
    v'.deadlineOf s =
      if s = event.fd then some (c.deadline.incrementAll (readCounts b shot v event c))
      else v.deadlineOf s := by
  obtain ⟨ps, hps⟩ := readForSingleSocket_hears b event.fd shot (readStart v event c)
  obtain ⟨-, m, hticks, hdeadline⟩ := readForSingleSocket_counted b event.fd shot (readStart v event c)
  have hcounts : readCounts b shot v event c = (List.range' 0 m).map event.clock := by
    rw [readCounts, readSession, hticks, List.range_eq_range']
    congr 2
    exact Nat.zero_add m
  have hkey : (readForSingleSocket b shot event.fd (readStart v event c)).2.session.clientInfo.socket =
      event.fd := hps.socket.trans ((Keyed.find_eq_some _).mp hfind).2
  obtain ⟨result, s', hrun, hclients, -⟩ := readClient_ok h
  rw [Polled.deadlineOf, hclients, show s' = _ from (congrArg Prod.snd hrun).symm]
  split_ifs with hs
  · have hmem := Keyed.mem_of_find _ hfind
    rw [← hkey] at hmem
    have hput := Keyed.find_put _ hmem
    rw [hkey] at hput
    rw [hs, hput, Option.map_some, hdeadline, hcounts]
    rfl
  · rw [Keyed.find_put_of_ne _ (by rwa [hkey])]
    rfl

theorem pollEvent_unchecked (h : checkedClient event.fd v event = none) :
    pollEvent b shot v event =
      .ok { v with socketsToTerminate := v.socketsToTerminate.insert event.fd } := by
  unfold checkedClient at h
  unfold pollEvent
  by_cases hu : event.hangUp = true
  · rw [if_pos hu]
  rw [if_pos ⟨rfl, by simpa using hu⟩] at h
  rw [if_neg hu]
  cases hfind : v.clients.clientInfos.find event.fd with
  | none => rfl
  | some c =>
    rw [hfind] at h
    have hnow : c.terminateNow = true := by simpa using h
    simp only [hnow, if_true]

theorem pollEvent_cases (h : pollEvent b shot v event = .ok v') :
    (readFrom b event.fd v event = none ∧ v'.clients = v.clients ∧ v'.readList = v.readList ∧
        v'.dispatched = v.dispatched) ∨
      ∃ c, readFrom b event.fd v event = some c ∧ readClient b shot event c v = .ok v' := by
  cases hc : checkedClient event.fd v event with
  | none =>
    rw [pollEvent_unchecked hc] at h
    cases h
    exact Or.inl ⟨by simp [readFrom, hc], rfl, rfl, rfl⟩
  | some c =>
    rw [pollEvent_checked hc] at h
    rcases hbreach : c.deadlineBreach b event.now with e | breach
    · rw [hbreach] at h
      cases h
    rw [hbreach] at h
    cases breach with
    | true =>
      cases h
      exact Or.inl ⟨by simp [readFrom, hc, hbreach], rfl, rfl, rfl⟩
    | false =>
      by_cases hr : event.readable = true
      · refine Or.inr ⟨c, by simp [readFrom, hc, hbreach, hr], ?_⟩
        simpa only [bind, Except.bind, hr, if_true, Bool.false_eq_true, if_false] using h
      · simp only [bind, Except.bind, hr] at h
        cases h
        exact Or.inl ⟨by simp [readFrom, hc, hr], rfl, rfl, rfl⟩

theorem readFrom_other (h : event.fd ≠ socket) : readFrom b socket v event = none := by
  simp [readFrom, checkedClient, h]

theorem countTimes_readings : countTimes (readings b shot socket v event) =
    (readFrom b socket v event).toList.flatMap fun c => readCounts b shot v event c := by
  cases hr : readFrom b socket v event with
  | none => exact (readings_unread hr).1
  | some c =>
    rw [readings_read hr]
    exact countTimes_readReadings.trans (List.append_nil _).symm

/-- **What is dispatched has been counted**: each packet at the time of a count of its own. -/
theorem dispatchTimes_readings : (dispatchTimes (readings b shot socket v event)).Sublist
    (countTimes (readings b shot socket v event)) := by
  cases hr : readFrom b socket v event with
  | none =>
    rw [dispatchTimes, (readings_unread hr).1, (readings_unread hr).2]
    exact List.Sublist.refl _
  | some c =>
    rw [readings_read hr]
    change (dispatchTimes (readReadings b shot v event c)).Sublist
      (countTimes (readReadings b shot v event c))
    rw [dispatchTimes, dispatches_readReadings, countTimes_readReadings]
    have hpaid : (readSession b shot v event c).Paid :=
      readForSingleSocket_paid b event.fd shot (readStart v event c) (List.Sublist.refl _)
    have hclock := hpaid.map fun k => event.clock (k - 1)
    rw [List.map_map, List.range'_eq_map_range, List.map_map] at hclock
    rw [readDispatches, List.map_map, readCounts]
    simpa [Function.comp_def] using hclock

/-- The packets of the client that a turn dispatches are those that are handed on. -/
theorem pollEvent_dispatches (hf : event.fd = socket) (h : pollEvent b shot v event = .ok v') :
    v'.dispatched =
      v.dispatched ++ (dispatches (readings b shot socket v event)).map Prod.snd := by
  subst hf
  rcases pollEvent_cases h with ⟨hr, -, -, hsame⟩ | ⟨c, hr, hread⟩
  · rw [(readings_unread hr).2, hsame]
    exact (List.append_nil _).symm
  · obtain ⟨result, s, hrun, -, -, hmore⟩ := readClient_ok hread
    have hsession : readSession b shot v event c = s.session := congrArg (·.2.session) hrun
    rw [hmore, readings_read hr]
    change _ = v.dispatched ++ (dispatches (readReadings b shot v event c)).map Prod.snd
    rw [dispatches_readReadings, readDispatches, hsession, List.map_map]
    rfl

/-- **A turn counts in the deadline what the clock gave it.** -/
theorem pollEvent_deadlineOf (h : pollEvent b shot v event = .ok v') :
    v'.deadlineOf socket = (v.deadlineOf socket).map fun d =>
      d.incrementAll (countTimes (readings b shot socket v event)) := by
  have hsame : readFrom b socket v event = none → v'.deadlineOf socket = v.deadlineOf socket →
      v'.deadlineOf socket = (v.deadlineOf socket).map fun d =>
        d.incrementAll (countTimes (readings b shot socket v event)) := by
    intro hr hd
    rw [countTimes_readings, hr, hd]
    exact Option.map_id'.symm
  rcases pollEvent_cases h with ⟨hr, hclients, -⟩ | ⟨c, hr, hread⟩
  · refine hsame ?_ (by rw [Polled.deadlineOf, hclients]; rfl)
    by_cases hs : event.fd = socket
    · rw [← hs]
      exact hr
    · exact readFrom_other hs
  · have hfind := (checkedClient_eq_some (Option.filter_eq_some_iff.mp hr).1).2.2.1
    have hd := readClient_deadline hfind hread socket
    by_cases hs : socket = event.fd
    · subst hs
      rw [hd, if_pos rfl, countTimes_readings, hr, Polled.deadlineOf, hfind]
      simp
    · exact hsame (readFrom_other (Ne.symm hs)) (hd.trans (if_neg hs))

/-- A turn that returns counts one packet at most, or in the multi-shot build those whose
length fields it comes upon. -/
theorem readCounts_eq (hr : readFrom b socket v event = some c)
    (h : pollEvent b shot v event = .ok v') :
    ∃ m, readCounts b shot v event c = (List.range m).map event.clock ∧
      (1 < m → shot = .multi ∧ m = lengthFields b n event.recv) := by
  obtain ⟨rfl, -⟩ := checkedClient_eq_some (Option.filter_eq_some_iff.mp hr).1
  refine ⟨_, rfl, fun hm => ?_⟩
  cases shot with
  | single =>
    rcases readSingleShot_once b event.fd (readStart v event c) with h0 | h1
    · exact absurd (hm.trans_eq h0) (show ¬1 < 0 by decide)
    · exact absurd (hm.trans_eq h1) (show ¬1 < 0 + 1 by decide)
  | multi =>
    rcases pollEvent_cases h with ⟨hnone, -⟩ | ⟨c', hc', hread⟩
    · rw [hr] at hnone
      cases hnone
    · rw [hr] at hc'
      cases hc'
      obtain ⟨result, s, hrun, -⟩ := readClient_ok hread
      have hresult := congrArg Prod.fst hrun
      exact ⟨rfl, (readMultiShot_ticks b event.fd _ hresult).trans (Nat.zero_add _)⟩

variable {d : Deadline} {maxCount : ℕ} {t0 : Timespec} {history : List Reading}

/-- The client of `socket`, whose constructor counted at `t0`. -/
structure Limited (socket : ℤ) (d : Deadline) (maxCount : ℕ) (t0 : Timespec)
    (history : List Reading) (v : Polled n) : Prop where
  deadline : v.deadlineOf socket = some (d.incrementAll (t0 :: countTimes history))
  spaced : Spaced d.recent maxCount (t0 :: countTimes history)
  counted : (dispatchTimes history).Sublist (countTimes history)

theorem Limited.client (h : Limited socket d maxCount t0 history v) {c : ClientInfo}
    (hfind : v.clients.clientInfos.find socket = some c) :
    c.deadline = d.incrementAll (t0 :: countTimes history) := by
  have hdeadline := h.deadline
  rw [Polled.deadlineOf, hfind] at hdeadline
  exact Option.some.inj hdeadline

/-- What a deadline that is not breached says of the packets that were counted. -/
theorem Limited.lets_pass (hm : 0 < maxCount) (hd : d.queue = Queue.make maxCount)
    {before : List Timespec} {now : Timespec}
    (hc : Clocked ((t0 :: countTimes history) ++ before ++ [now]))
    (hb : ((d.incrementAll (t0 :: countTimes history)).incrementAll before).breached b now =
      .ok false) :
    ((t0 :: countTimes history) ++ before).countP (d.recent now) < maxCount := by
  rw [← Deadline.incrementAll_append,
    Deadline.breached_counts hm (Deadline.counts_incrementAll hm hd _) hc,
    Deadline.recent_incrementAll] at hb
  simpa using hb

theorem clock_of_counts {clock : ℕ → Timespec} {m : ℕ} {before after : List Timespec}
    {t : Timespec} (h : before ++ t :: after = (List.range m).map clock) :
    before.length < m ∧ before = (List.range before.length).map clock ∧
      t = clock before.length := by
  have hlen : before.length < m := by
    have hlength := congrArg List.length h
    simp only [List.length_append, List.length_cons, List.length_map, List.length_range] at hlength
    omega
  refine ⟨hlen, ?_, ?_⟩
  · have htake := congrArg (List.take before.length) h
    rwa [List.take_left, ← List.map_take, List.take_range, Nat.min_eq_left hlen.le] at htake
  · have hget := congrArg (·[before.length]?) h
    simpa [hlen] using hget

/-- The times of a turn that reads come behind those that were counted before it. -/
theorem clocked_reads {c : ClientInfo} (hr : readFrom b event.fd v event = some c)
    {before after : List Timespec} {t : Timespec}
    (hcounts : readCounts b shot v event c = before ++ t :: after)
    (hc : Clocked (t0 :: clockTimes (history ++ readings b shot event.fd v event))) :
    Clocked ((t0 :: countTimes history) ++ event.now :: (before ++ [t])) := by
  apply hc.sublist
  rw [clockTimes_append, readings_read hr]
  refine ((countTimes_sublist history).append ?_).cons_cons t0
  change (event.now :: (before ++ [t])).Sublist
    (event.now :: clockTimes (readReadings b shot v event c))
  rw [clockTimes_readReadings, hcounts]
  simp

/-- Before each packet that a turn counts, the deadline would have let it pass. -/
theorem Limited.room (hm : 0 < maxCount) (hd : d.queue = Queue.make maxCount)
    (h : Limited socket d maxCount t0 history v) (hp : Paced b shot socket v event)
    (hc : Clocked (t0 :: clockTimes (history ++ readings b shot socket v event)))
    (hpoll : pollEvent b shot v event = .ok v') (before : List Timespec) (t : Timespec)
    (after : List Timespec)
    (he : countTimes (readings b shot socket v event) = before ++ t :: after) :
    ((t0 :: countTimes history) ++ before).countP (d.recent t) < maxCount := by
  rw [countTimes_readings] at he
  cases hr : readFrom b socket v event with
  | none => simp [hr] at he
  | some c =>
    have hcounts : readCounts b shot v event c = before ++ t :: after := by simpa [hr] using he
    obtain ⟨hchecked, hbreach⟩ := Option.filter_eq_some_iff.mp hr
    obtain ⟨rfl, -, hfind, -⟩ := checkedClient_eq_some hchecked
    have hclocked := clocked_reads hr hcounts hc
    have hdeadline := h.client hfind
    obtain ⟨m, hrange, hmulti⟩ := readCounts_eq hr hpoll
    rw [hcounts] at hrange
    obtain ⟨hlen, hbefore, ht⟩ := clock_of_counts hrange
    cases before with
    | nil =>
      -- the check of the turn lets the first packet pass
      have hunbreached := (of_decide_eq_true hbreach).1
      rw [ClientInfo.deadlineBreach, hdeadline] at hunbreached
      have hnow : ((t0 :: countTimes history) ++ []).countP (d.recent event.now) < maxCount :=
        lets_pass hm hd (hclocked.sublist (by simp)) hunbreached
      have hafter : t.after event.now := by
        have hsorted := (List.pairwise_append.mp hclocked.sorted).2.1
        simpa using hsorted
      refine lt_of_le_of_lt (List.countP_mono_left fun x _ hx => ?_) hnow
      exact Deadline.recent_of_after (hclocked.normal _ (by simp)) (hclocked.normal _ (by simp))
        hafter hx
    | cons first before =>
      have hpos : 1 ≤ (first :: before).length := Nat.le_add_left _ _
      obtain ⟨rfl, hfields⟩ := hmulti (by omega)
      have hunbreached := hp rfl c hr _ hpos (by rw [← hfields]; exact hlen)
      rw [← hbefore, ← ht, hdeadline] at hunbreached
      exact lets_pass hm hd (hclocked.sublist (by simp)) hunbreached

theorem Limited.step (hm : 0 < maxCount) (hd : d.queue = Queue.make maxCount)
    (h : Limited socket d maxCount t0 history v) {es : List Reading}
    (hs : RateStep b shot socket (Paced b shot socket) v es v')
    (hc : Clocked (t0 :: clockTimes (history ++ es))) :
    Limited socket d maxCount t0 (history ++ es) v' := by
  cases hs with
  | turn event hp hpoll =>
    constructor
    · rw [pollEvent_deadlineOf hpoll, h.deadline, Option.map_some, ← Deadline.incrementAll_append,
        countTimes_append, List.cons_append]
    · rw [countTimes_append]
      exact h.spaced.append (h.room hm hd hp hc hpoll)
    · rw [countTimes_append, dispatchTimes_append]
      exact h.counted.append dispatchTimes_readings
  | other hd' =>
    rw [List.append_nil]
    exact ⟨hd'.trans h.deadline, h.spaced, h.counted⟩

/-- A client of which `maxCount` packets were counted within the last `maxTime` is not read
from. -/
theorem Limited.full (hm : 0 < maxCount) (hd : d.queue = Queue.make maxCount)
    (h : Limited socket d maxCount t0 history v) (hf : event.fd = socket)
    (hc : Clocked (t0 :: clockTimes history ++ [event.now]))
    (hfull : maxCount ≤ (countTimes history).countP (d.recent event.now)) :
    pollEvent b shot v event =
      .ok { v with socketsToTerminate := v.socketsToTerminate.insert socket } := by
  subst hf
  cases hcheck : checkedClient event.fd v event with
  | none => exact pollEvent_unchecked hcheck
  | some c =>
    obtain ⟨-, -, hfind, -⟩ := checkedClient_eq_some hcheck
    have hdeadline := h.client hfind
    have hclocked : Clocked ((t0 :: countTimes history) ++ [event.now]) :=
      hc.sublist (((countTimes_sublist history).cons_cons t0).append (List.Sublist.refl _))
    have hbreach : c.deadlineBreach b event.now = .ok true := by
      rw [ClientInfo.deadlineBreach, hdeadline,
        Deadline.breached_counts hm (Deadline.counts_incrementAll hm hd _) hclocked,
        Deadline.recent_incrementAll, decide_eq_true]
      exact hfull.trans (List.sublist_cons_self _ _).countP_le
    rw [pollEvent_checked hcheck, hbreach]
    rfl

variable {v0 : Polled n}

/-- **The server's rate limit.** As long as every turn is paced, as it is in the single-shot
build, no window of length `maxTime` has more than `maxCount` counts of the client's packets
or more than `maxCount` dispatches, and a client that has as many counts is selected for
termination and not read from. -/
theorem counted_limited (hm : 0 < maxCount) (hd : d.queue = Queue.make maxCount)
    (h0 : v0.deadlineOf socket = some (d.increment t0))
    (hr : Run (RateStep b shot socket (Paced b shot socket)) v0 history v)
    (hc : Clocked (t0 :: clockTimes history)) :
    (∀ start, (countTimes history).countP (d.within start) ≤ maxCount ∧
        (dispatchTimes history).countP (d.within start) ≤ maxCount) ∧
      ∀ event : EpollEvent, event.fd = socket →
        Clocked (t0 :: clockTimes history ++ [event.now]) →
        maxCount ≤ (countTimes history).countP (d.recent event.now) →
        pollEvent b shot v event =
          .ok { v with socketsToTerminate := v.socketsToTerminate.insert socket } := by
  have hlimited : Clocked (t0 :: clockTimes history) → Limited socket d maxCount t0 history v := by
    refine hr.invariant (I := fun history v => Clocked (t0 :: clockTimes history) →
      Limited socket d maxCount t0 history v) (fun _ => ⟨h0, .singleton hm t0, .slnil⟩) ?_
    intro history es s s' ih hs hc'
    have hbefore : Clocked (t0 :: clockTimes history) := by
      refine hc'.sublist (List.Sublist.cons_cons t0 ?_)
      rw [clockTimes_append]
      exact List.sublist_append_left _ _
    exact (ih hbefore).step hm hd hs hc'
  have h := hlimited hc
  refine ⟨fun start => ?_, fun event hf hclocked hfull => h.full hm hd hf hclocked hfull⟩
  have hall : (t0 :: countTimes history).countP (d.within start) ≤ maxCount :=
    h.spaced.countP_le fun a _ x _ ha hx => Deadline.recent_of_within ha hx
  have hcounts : (countTimes history).countP (d.within start) ≤ maxCount :=
    (List.sublist_cons_self _ _).countP_le.trans hall
  exact ⟨hcounts, h.counted.countP_le.trans hcounts⟩

/-- A server with one client, for which `maxCount` is the limit. -/
def samplePolled (maxCount : ℕ) : Polled 106 :=
  ⟨{ ClientInfos.make with clientInfos := Keyed.empty.insert (.make 5 maxCount ⟨0, 0⟩) },
    sampleBuffer, [], [], [], []⟩

/-- At `seconds` it has sent `frames` empty packets. -/
def sampleBurst (seconds : ℤ) (frames : ℕ) : EpollEvent :=
  { fd := 5
    readable := true
    recv := [.arrive (List.replicate frames (0 :: 4 :: Commands.blank)).flatten]
    now := ⟨seconds, 0⟩
    clock := fun _ => ⟨seconds, 0⟩ }

/-- What a turn does that takes `k` packets of the burst. -/
def burstReadings (seconds : ℤ) (k : ℕ) : List Reading :=
  .checked ⟨seconds, 0⟩ :: (List.replicate k (.counted ⟨seconds, 0⟩) ++
    List.replicate k (.dispatched ⟨seconds, 0⟩ ⟨5, Commands.blank, []⟩))

theorem sampleBurst_run (shot : Shot) (seconds : ℤ) (frames k : ℕ)
    (Allowed : Polled 106 → EpollEvent → Prop)
    (h : (pollEvent ⟨true, .little⟩ shot (samplePolled 2) (sampleBurst seconds frames)).isOk = true)
    (hk : readings ⟨true, .little⟩ shot 5 (samplePolled 2) (sampleBurst seconds frames) =
      burstReadings seconds k)
    (ha : Allowed (samplePolled 2) (sampleBurst seconds frames)) :
    ∃ v, Run (RateStep ⟨true, .little⟩ shot 5 Allowed) (samplePolled 2) (burstReadings seconds k) v := by
  rcases hv : pollEvent ⟨true, .little⟩ shot (samplePolled 2) (sampleBurst seconds frames) with e | v
  · rw [hv] at h
    cases h
  · rw [← hk]
    exact ⟨v, Run.start.next (.turn (sampleBurst seconds frames) ha hv)⟩

theorem deadlineOf_sample (maxCount : ℕ) :
    (samplePolled maxCount).deadlineOf 5 = some ((Deadline.make maxCount).increment ⟨0, 0⟩) := rfl

/-- Eleven seconds after its first count the client has room for two packets at once. -/
theorem sampleBurst_paced :
    Paced ⟨true, .little⟩ .multi 5 (samplePolled 2) (sampleBurst 11 2) := by
  intro _ c hc j hj hlt
  have hfields : lengthFields ⟨true, .little⟩ 106 (sampleBurst 11 2).recv = 2 := by decide +kernel
  rw [hfields] at hlt
  obtain rfl : j = 1 := by omega
  have hroom : (readFrom ⟨true, .little⟩ 5 (samplePolled 2) (sampleBurst 11 2)).all (fun c =>
      (c.deadline.incrementAll [⟨11, 0⟩]).breached ⟨true, .little⟩ ⟨11, 0⟩ = .ok false) = true := by
    decide +kernel
  rw [Option.mem_def.mp hc] at hroom
  exact of_decide_eq_true hroom

/-- The multi-shot read takes two packets, and at the next burst the client is to be terminated. -/
theorem counted_limited_multi :
    ∃ v, Run (RateStep ⟨true, .little⟩ .multi 5 (Paced ⟨true, .little⟩ .multi 5)) (samplePolled 2)
        (burstReadings 11 2) v ∧
      (dispatchTimes (burstReadings 11 2)).countP ((Deadline.make 2).within (11 * 10 ^ 9)) ≤ 2 ∧
      pollEvent ⟨true, .little⟩ .multi v (sampleBurst 12 1) =
        .ok { v with socketsToTerminate := v.socketsToTerminate.insert 5 } := by
  obtain ⟨v, hv⟩ := sampleBurst_run .multi 11 2 2 _ (by decide +kernel) (by decide +kernel)
    sampleBurst_paced
  obtain ⟨hwindow, hfull⟩ := counted_limited (d := Deadline.make 2) (by decide) rfl
    (deadlineOf_sample 2) hv ⟨by decide, by decide⟩
  exact ⟨v, hv, (hwindow _).2, hfull _ rfl ⟨by decide, by decide⟩ (by decide)⟩

/-- The multi-shot read takes all three packets of a burst. -/
theorem counted_burst :
    ¬∀ (n : ℕ) (b : Build) (shot : Shot) (socket : ℤ) (d : Deadline) (maxCount : ℕ)
      (t0 : Timespec) (v0 v : Polled n) (history : List Reading), 0 < maxCount →
      d.queue = Queue.make maxCount → v0.deadlineOf socket = some (d.increment t0) →
      Run (RateStep b shot socket fun _ _ => True) v0 history v →
      Clocked (t0 :: clockTimes history) →
      ∀ start, (countTimes history).countP (d.within start) ≤ maxCount ∧
        (dispatchTimes history).countP (d.within start) ≤ maxCount := by
  intro h
  obtain ⟨v, hv⟩ := sampleBurst_run .multi 1 3 3 (fun _ _ => True) (by decide +kernel)
    (by decide +kernel) trivial
  have hle := h 106 ⟨true, .little⟩ .multi 5 (Deadline.make 2) 2 ⟨0, 0⟩ (samplePolled 2) v
    (burstReadings 1 3) (by decide) rfl (deadlineOf_sample 2) hv ⟨by decide, by decide⟩ 0
  exact absurd hle.2 (by decide)

theorem onReadPoll_turns {cs : ClientInfos} {buffer : Buffer n} {events : List EpollEvent}
    (h : onReadPoll b shot cs buffer events = .ok v) :
    ∃ history, Run (RateStep b shot socket fun _ _ => True) ⟨cs, buffer, [], [], [], []⟩ history v := by
  rcases hfold : (events.take cs.pollInEvents).foldlM (pollEvent b shot)
    (⟨cs, buffer, [], [], [], []⟩ : Polled n) with e | v'
  · rw [onReadPoll, hfold] at h
    cases h
  · rw [onReadPoll, hfold] at h
    cases h
    have hturns : ∃ history, Run (RateStep b shot socket fun _ _ => True)
        (⟨cs, buffer, [], [], [], []⟩ : Polled n) history v' := by
      refine foldlM_ok (R := fun v v' : Polled n =>
        ∃ history, Run (RateStep b shot socket fun _ _ => True) v history v')
        (fun v => ⟨[], .start⟩) ?_
        (fun v event v' hpoll => ⟨_, Run.start.next (.turn event trivial hpoll)⟩) hfold
      intro v v' v'' h h'
      obtain ⟨hs, hr⟩ := h
      obtain ⟨hs', hr'⟩ := h'
      exact ⟨hs ++ hs', hr.append hr'⟩
    obtain ⟨history, hrun⟩ := hturns
    exact ⟨_, hrun.next (.other rfl)⟩

end Turns

end PollServer
