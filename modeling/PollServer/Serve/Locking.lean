import PollServer.Lib.Locking
import PollServer.Model.Sections

/-! The threads of the sample server never all wait for locks, whatever they find and however
their steps interleave; and a place is raced on only if it is a flag of a client, or a client's
id when polling and executing are separate. -/

namespace PollServer.Sections

open Lib Lib.Scoped

variable {k : ℕ}

/-- `downCallback` takes its mutex first; behind `ClientInfos::lock` there is one more lock. -/
def rank : LockName k → ℕ
  | .downCallback => 0
  | .lock _ => 1
  | _ => 2

def protectors (separate : Bool) : Place k → Option (List (Protector (ThreadName k) (LockName k)))
  | .clientInfos i | .updateIssued i | .terminateNow i _ => some [.lock (.lock i)]
  | .pollInEvents i => some [.thread (.pollAndRead i)]
  | .packetsToRead i => some [.lock (.readMutex i)]
  | .packetsToWrite i => some [.lock (.writeMutex i)]
  | .timestamps i => some [.lock (.mostRecentTimestampsLock i)]
  | .sizes => some [.lock .balancer]
  | .queue i socket => some [.lock (.lock i), .lock (.deadline i socket)]
  | .clientId i _ =>
    if separate then none else some [.lock (.lock i), .thread (.pollAndRead i)]
  | .terminateOnNextCycle _ _ => none

/-- In the scope of a guard of `ClientInfos::lock`. -/
def Inside (i : Fin k) (m : Mode) (held : List (LockName k × Mode)) : Prop :=
  (LockName.lock i, m) ∈ held ∧ HeldBelow rank 2 held

/-- The map that a place is in. -/
def Place.home : Place k → Option (Fin k)
  | .clientInfos i | .updateIssued i | .queue i _ | .clientId i _ | .terminateOnNextCycle i _
  | .terminateNow i _ => some i
  | _ => none

section Fits

variable {separate : Bool} {t : ThreadName k} {i : Fin k} {m : Mode} {p : Place k} {l : LockName k}
  {H : List (LockName k × Mode) → Prop}

theorem guard_fits {block : List (Code k)}
    (hb : (join block).Fits rank (protectors separate) t (Inside i m)) :
    (under (.lock i) m block).Fits rank (protectors separate) t (HeldBelow rank 1) := by
  refine fits_under (fun _ h => h) (hb.weaken ?_)
  rintro _ ⟨held, rfl, h⟩
  exact ⟨List.mem_cons_self, heldBelow_cons.mpr ⟨Nat.lt_succ_self 1, h.mono (Nat.le_succ 1)⟩⟩

theorem lock_fits (hp : protectors separate p = some [.lock l]) (w : Bool) :
    (touch p w skip).Fits rank (protectors separate) t (Within l .exclusive H) := by
  refine fits_touch ?_
  rintro _ ⟨held, rfl, -⟩ gs hgs
  rw [hp] at hgs
  cases hgs
  exact Or.inl (Or.inl List.mem_cons_self)

/-- One of the locks behind which no other is taken, around what it protects. -/
theorem leaf_fits (hl : rank l = 2) (hp : protectors separate p = some [.lock l]) (w : Bool)
    (hH : ∀ held, H held → HeldBelow rank 2 held) :
    (under l .exclusive [touch p w skip]).Fits rank (protectors separate) t H :=
  fits_under (fun held h => by rw [hl]; exact hH held h) (lock_fits hp w)

theorem leaf_inside (hl : rank l = 2) (hp : protectors separate p = some [.lock l]) (w : Bool) :
    (under l .exclusive [touch p w skip]).Fits rank (protectors separate) t (Inside i m) :=
  leaf_fits hl hp w fun _ h => h.2

theorem leaf_below (hl : rank l = 2) (hp : protectors separate p = some [.lock l]) (w : Bool) :
    (under l .exclusive [touch p w skip]).Fits rank (protectors separate) t (HeldBelow rank 1) :=
  leaf_fits hl hp w fun _ h => h.mono (Nat.le_succ 1)

theorem exclusive_fits (hp : p.home = some i) (w : Bool) :
    (touch p w skip).Fits rank (protectors separate) t (Inside i .exclusive) := by
  refine fits_touch fun held h gs hgs => ?_
  obtain ⟨gs', rfl⟩ : ∃ gs', gs = .lock (.lock i) :: gs' := by
    cases p <;> cases hp <;> cases separate <;> cases hgs <;> exact ⟨_, rfl⟩
  exact Or.inl (Or.inl h.1)

theorem shared_fits (hp : protectors separate p = some [.lock (.lock i)]) :
    (touch p false skip).Fits rank (protectors separate) t (Inside i m) := by
  refine fits_touch fun held h gs hgs => ?_
  rw [hp] at hgs
  cases hgs
  cases m with
  | exclusive => exact Or.inl (Or.inl h.1)
  | shared => exact Or.inr ⟨Or.inr ⟨rfl, h.1⟩, rfl⟩

theorem bare_fits (hp : protectors separate p = none) (w : Bool) :
    (touch p w skip).Fits rank (protectors separate) t H :=
  fits_touch fun _ _ gs hgs => by rw [hp] at hgs; cases hgs

theorem own_fits (hp : protectors separate p = some [.thread t]) (w : Bool) :
    (touch p w skip).Fits rank (protectors separate) t H :=
  fits_touch fun _ _ gs hgs => by rw [hp] at hgs; cases hgs; exact Or.inl rfl

/-- The client of a deadline whose lock is taken is in a map that is held. -/
theorem deadline_fits (w : Bool) (socket : ℤ) :
    (under (.deadline i socket) .exclusive [touch (.queue i socket) w skip]).Fits rank
      (protectors separate) t (Inside i .shared) := by
  refine fits_under (fun held h => h.2) (fits_touch ?_)
  rintro _ ⟨held, rfl, h⟩ gs hgs
  cases hgs
  exact Or.inr ⟨Or.inr ⟨rfl, List.mem_cons_of_mem _ h.1⟩, Or.inl (Or.inl List.mem_cons_self)⟩

/-- A client's id, unless the threads that poll and execute are separate, is what the polling
thread alone touches without holding the map for itself. -/
theorem clientId_fits (ht : separate = false → t = .pollAndRead i) (w : Bool) (socket : ℤ) :
    (touch (.clientId i socket) w skip).Fits rank (protectors separate) t (Inside i .shared) := by
  cases separate with
  | true => exact bare_fits rfl w
  | false =>
    refine fits_touch fun held h gs hgs => ?_
    cases hgs
    exact Or.inr ⟨Or.inr ⟨rfl, h.1⟩, Or.inl (ht rfl).symm⟩

/-! ### The functions -/

theorem members_fits (w : Bool) (socket : ℤ) :
    (members i (touch · w skip) socket).Fits rank (protectors separate) t (Inside i .exclusive) :=
  fits_join ⟨exclusive_fits rfl w, exclusive_fits rfl w, exclusive_fits rfl w, exclusive_fits rfl w⟩

theorem close_fits (socketsToRemove : List (ℤ × Bool)) :
    (close i socketsToRemove).Fits rank (protectors separate) t (HeldBelow rank 1) :=
  guard_fits (fits_loop fun (socket, _) =>
    fits_join ⟨exclusive_fits rfl false,
      fits_ite (fits_join ⟨exclusive_fits rfl false, leaf_inside rfl rfl true, exclusive_fits rfl true,
        members_fits true socket⟩) fits_skip⟩)

theorem insert_fits (socket : ℤ) (present : Bool) :
    (insert i socket present).Fits rank (protectors separate) t (HeldBelow rank 1) :=
  guard_fits (fits_join
    ⟨fits_ite (exclusive_fits rfl false) (fits_join ⟨exclusive_fits rfl true, members_fits true socket⟩),
      exclusive_fits rfl true⟩)

theorem size_fits : (size i).Fits rank (protectors separate) t (HeldBelow rank 1) :=
  guard_fits (shared_fits rfl)

theorem removeOldestClientAndReturn_fits (oldest : Option ℤ) :
    (removeOldestClientAndReturn i oldest).Fits rank (protectors separate) t (HeldBelow rank 1) := by
  refine guard_fits (fits_join ⟨exclusive_fits rfl false, ?_⟩)
  cases oldest with
  | none => exact fits_skip
  | some socket =>
    exact fits_join ⟨members_fits false socket, exclusive_fits rfl true, members_fits true socket⟩

theorem filterSocketsToTerminate_fits (socketsSelected : List (ℤ × Option (Bool × Bool))) :
    (filterSocketsToTerminate i socketsSelected).Fits rank (protectors separate) t
      (HeldBelow rank 1) := by
  refine fits_join ⟨fits_loop fun (socket, flags) => guard_fits (fits_join ⟨shared_fits rfl, ?_⟩),
    fits_ite (leaf_below rfl rfl true) fits_skip⟩
  cases flags with
  | none => exact fits_skip
  | some flags =>
    exact fits_join ⟨bare_fits rfl false,
      fits_ite fits_skip (fits_join ⟨shared_fits rfl, fits_ite fits_skip (bare_fits rfl true)⟩)⟩

theorem update_fits (updateIssued : Bool) :
    (update i updateIssued).Fits rank (protectors separate) (.pollAndRead i) (HeldBelow rank 1) :=
  fits_join ⟨guard_fits (shared_fits rfl),
    fits_ite (guard_fits (fits_join ⟨exclusive_fits rfl false, own_fits rfl true, exclusive_fits rfl true⟩))
      fits_skip⟩

theorem reaction_fits (socket : ℤ) (packet : NetworkPacket) :
    (reaction i socket packet).Fits rank (protectors separate) (.pollAndRead i) (Inside i .shared) :=
  fits_ite (bare_fits rfl true)
    (fits_ite (leaf_inside rfl rfl true)
      (fits_ite (fits_join ⟨clientId_fits (fun _ => rfl) true socket, leaf_inside rfl rfl true⟩)
        (fits_ite (bare_fits rfl true) fits_skip)))

theorem readForSingleSocket_fits (socket : ℤ) (packets : List NetworkPacket) (begun : Bool) :
    (readForSingleSocket i socket packets begun).Fits rank (protectors separate) (.pollAndRead i)
      (Inside i .shared) :=
  fits_join ⟨fits_loop fun packet => fits_join ⟨deadline_fits true socket, reaction_fits socket packet⟩,
    fits_ite (deadline_fits true socket) fits_skip⟩

theorem polled_fits (socket : ℤ) (event : Polled) :
    (polled i socket event).Fits rank (protectors separate) (.pollAndRead i) (Inside i .shared) := by
  cases event with
  | hangup => exact fits_skip
  | unknown => exact shared_fits rfl
  | terminateNow => exact fits_join ⟨shared_fits rfl, shared_fits rfl⟩
  | deadlineBreach | unreadable =>
    exact fits_join ⟨shared_fits rfl, shared_fits rfl, deadline_fits false socket⟩
  | readable packets begun failed =>
    exact fits_join ⟨shared_fits rfl, shared_fits rfl, deadline_fits false socket,
      readForSingleSocket_fits socket packets begun⟩

theorem onReadPoll_fits (events : List (ℤ × Polled)) :
    (onReadPoll i events).Fits rank (protectors separate) (.pollAndRead i) (HeldBelow rank 1) :=
  fits_join ⟨own_fits rfl true,
    fits_ite fits_skip (guard_fits (fits_loop fun (socket, event) =>
      fits_join ⟨own_fits rfl false, polled_fits socket event⟩)),
    fits_ite (leaf_below rfl rfl true) fits_skip⟩

/-- The thread that executes is the one that polls, unless the two are separate. -/
theorem execute_fits (ht : separate = false → t = .pollAndRead i) (packetsToRead : List (ℤ × Bool))
    (clientInfosEmpty : Bool) :
    (execute i separate packetsToRead clientInfosEmpty).Fits rank (protectors separate) t
      (HeldBelow rank 1) :=
  fits_join ⟨fits_ite (fits_under (fun _ h => h.mono (Nat.le_succ 1)) fits_skip) fits_skip,
    fits_under (fun _ h => h.mono (Nat.le_succ 1))
      (fits_join ⟨lock_fits rfl false, fits_ite fits_skip (lock_fits rfl true)⟩),
    fits_ite fits_skip (guard_fits (fits_join ⟨shared_fits rfl,
      fits_ite fits_skip (fits_join
        ⟨fits_loop fun (socket, _) =>
          fits_join ⟨shared_fits rfl, fits_ite (clientId_fits ht false socket) fits_skip⟩,
        leaf_inside rfl rfl true⟩)⟩))⟩

theorem writeOut_fits (pending : Bool) :
    (writeOut i pending).Fits rank (protectors separate) t (HeldBelow rank 1) :=
  fits_under (fun _ h => h.mono (Nat.le_succ 1))
    (fits_join ⟨lock_fits rfl false, fits_ite (lock_fits rfl true) fits_skip⟩)

theorem add_fits (socket : ℤ) (present : Bool) :
    (add i socket present).Fits rank (protectors separate) t (HeldBelow rank 1) :=
  fits_join ⟨insert_fits socket present, leaf_below rfl rfl true, leaf_below rfl rfl true⟩

theorem execHealthCheck_fits (n : ℕ) (socketsSelected : List (ℤ × Option (Bool × Bool))) :
    (execHealthCheck i n socketsSelected).Fits rank (protectors separate) t (HeldBelow rank 1) :=
  fits_join ⟨leaf_below rfl rfl false,
    fits_ite fits_skip (fits_join ⟨leaf_below rfl rfl false,
      fits_ite fits_skip (filterSocketsToTerminate_fits socketsSelected)⟩)⟩

theorem removeOldest_fits (oldest : Option ℤ) :
    (removeOldest i oldest).Fits rank (protectors separate) t (HeldBelow rank 1) :=
  fits_join ⟨removeOldestClientAndReturn_fits oldest, leaf_below rfl rfl true, leaf_below rfl rfl true⟩

theorem switchClient_fits (turn : Switch k) :
    (switchClient turn).Fits rank (protectors separate) t (HeldBelow rank 1) := by
  cases turn with
  | balanced => exact fits_skip
  | vacant maxIdx => exact size_fits
  | same maxIdx => exact fits_join ⟨size_fits, size_fits⟩
  | switched maxIdx minIdx oldest present =>
    exact fits_join ⟨size_fits, size_fits, removeOldest_fits oldest, add_fits _ present,
      leaf_below rfl rfl false⟩

/-- Here alone `ClientInfos::lock` is not the first lock. -/
theorem downCallback_fits (th : Threading) (turns : List (Switch k)) :
    (downCallback th turns).Fits rank (protectors separate) t (HeldBelow rank 0) :=
  fits_ite (fits_loop fun turn =>
    fits_under (fun _ h => h) (Fits.weaken
      (fits_join ⟨leaf_below rfl rfl false, leaf_below rfl rfl false, switchClient_fits turn⟩)
      fun _ ⟨_, hheld, h⟩ => hheld ▸ heldBelow_cons.mpr ⟨Nat.one_pos, h.mono (Nat.zero_le 1)⟩)) fits_skip

theorem closeSocketConnections_fits (th : Threading) (socketsToRemove : List (ℤ × Bool))
    (turns : List (Switch k)) :
    (closeSocketConnections i th socketsToRemove turns).Fits rank (protectors separate) t
      (HeldBelow rank 0) :=
  have hmono : ∀ held : List (LockName k × Mode), HeldBelow rank 0 held → HeldBelow rank 1 held :=
    fun _ h => h.mono (Nat.zero_le 1)
  fits_join ⟨(close_fits socketsToRemove).weaken hmono,
    fits_ite (fits_join ⟨(leaf_below rfl rfl true).weaken hmono, downCallback_fits th turns⟩) fits_skip⟩

end Fits

variable {th : Threading} {strict : Bool}

theorem Calls.fits {t : ThreadName k} {c : Code k} (h : Calls th t c) :
    c.Fits rank (protectors th.separate) t (HeldBelow rank 0) := by
  have hmono : ∀ held : List (LockName k × Mode), HeldBelow rank 0 held → HeldBelow rank 1 held :=
    fun _ hb => hb.mono (Nat.zero_le 1)
  cases h with
  | main i socket present =>
    exact Fits.weaken
      (fits_join ⟨leaf_below rfl rfl false, add_fits socket present, leaf_below rfl rfl false⟩) hmono
  | healthCheck size socketsSelected =>
    exact fits_loop fun i => (execHealthCheck_fits (size i) (socketsSelected i)).weaken hmono
  | idle i | separateIdle i => exact size_fits.weaken hmono
  | pollAndRead i v o =>
    have hread : (pollRead i v.updateIssued v.events).Fits rank (protectors th.separate)
        (.pollAndRead i) (HeldBelow rank 1) :=
      fits_join ⟨update_fits v.updateIssued, onReadPoll_fits v.events,
        fits_ite fits_skip (leaf_below rfl rfl true)⟩
    exact fits_join ⟨size_fits.weaken hmono, fits_join ⟨hread.weaken hmono,
      fits_ite fits_skip (closeSocketConnections_fits th v.socketsToTerminate v.turns),
      fits_ite fits_skip (fits_join ⟨(execute_fits (fun _ => rfl) _ _).weaken hmono,
        (writeOut_fits _).weaken hmono⟩)⟩⟩
  | executeAndWrite i o h =>
    exact fits_join ⟨size_fits.weaken hmono,
      fits_join ⟨(execute_fits (fun hs => by rw [h] at hs; cases hs) _ _).weaken hmono,
        (writeOut_fits _).weaken hmono⟩⟩

theorem Calls.orderly (t : ThreadName k) (c : Code k) (h : Calls th t c) :
    c.Orderly rank (protectors th.separate) t [] :=
  h.fits [] heldBelow_nil

/-- Whatever the threads have come to, while any of them is in a turn of its loop one of them can
go on; and all turns can be finished, with every lock given back. -/
theorem turns_finish {history : List (ThreadName k × LockOp (LockName k) (Place k))}
    {w : ThreadName k → Thread (LockName k) (Place k)}
    (hr : Run (LockStep (Calls th) strict) quiet history w) :
    (∀ t, (w t).todo ≠ [] → ∃ u op w', LockStep (Calls th) strict w [(u, op)] w') ∧
      ∃ more w', Run (LockStep (fun _ _ => False) strict) w more w' ∧ ∀ t, w' t = ⟨[], []⟩ := by
  have hkept := Run.locksKept Calls.orderly hr
  refine ⟨fun t ht => ?_, hkept.drained⟩
  obtain ⟨u, op, rest, w', -, hs⟩ := hkept.progress (Calls th) strict ht
  exact ⟨u, op, w', hs⟩

/-- A client is about to be inserted while the polling thread wants to know their number. -/
theorem reached_insert : ∃ history w rest,
    Run (LockStep (Calls (k := 1) ⟨false, false⟩) true) quiet history w ∧
      w .main = ⟨[(.lock 0, .exclusive)], .access (.clientInfos 0) true :: rest⟩ ∧
      w (.pollAndRead 0) = ⟨[], (size 0).ops⟩ := by
  have hs : LockStep (Calls (k := 1) ⟨false, false⟩) true quiet [] _ := .call (.main 0 5 false) rfl
  obtain ⟨more, hr⟩ := (locksKept_quiet.step Calls.orderly hs).alone true Calls.orderly (t := .main)
    (show _ = (nextIndex.ops ++ [.acquire (.lock 0) .exclusive]) ++ _ from rfl) fun u hu => by
      rw [Function.update_of_ne hu]
      exact ⟨fun _ _ _ _ hm => absurd hm List.not_mem_nil, fun _ _ => nofun⟩
  exact ⟨_, _, _, ((Run.next .start hs).append hr).next (.call (.idle 0) rfl), rfl, rfl⟩

theorem turns_finish_waiting : ∃ (history : List _) (w : ThreadName 1 → Thread (LockName 1) (Place 1)),
    Run (LockStep (Calls ⟨false, false⟩) true) quiet history w ∧
      (w .main).held = [(.lock 0, .exclusive)] ∧ (w (.pollAndRead 0)).todo = (size 0).ops ∧
      (∃ u op w', LockStep (Calls ⟨false, false⟩) true w [(u, op)] w') ∧
      ∃ more w', Run (LockStep (fun _ _ => False) true) w more w' ∧ ∀ t, w' t = ⟨[], []⟩ := by
  obtain ⟨history, w, rest, hr, hmain, hpoll⟩ := reached_insert
  refine ⟨history, w, hr, by rw [hmain], by rw [hpoll], ?_, (turns_finish hr).2⟩
  exact (turns_finish hr).1 .main (by rw [hmain]; nofun)

/-- Two threads are about to touch a place, and one of them to write it. -/
def Races (w : ThreadName k → Thread (LockName k) (Place k)) (p : Place k) : Prop :=
  ∃ t u write rest rest', t ≠ u ∧ (w t).todo = .access p true :: rest ∧
    (w u).todo = .access p write :: rest'

/-- A client's flag, or its id when the threads that poll and execute are separate. -/
def Place.Bare (separate : Bool) : Place k → Prop
  | .terminateOnNextCycle _ _ => True
  | .clientId _ _ => separate = true
  | _ => False

theorem protectors_none {separate : Bool} {p : Place k} : protectors separate p = none ↔ p.Bare separate := by
  cases p <;> cases separate <;> simp [protectors, Place.Bare]

/-! ### The races that there are -/

/-- What the polling thread does up to its reaction to the first packet that it reads. -/
def pollOps (i : Fin k) (socket : ℤ) : List (LockOp (LockName k) (Place k)) :=
  (size i).ops ++ ((update i false).ops ++ (.access (.pollInEvents i) true ::
    .acquire (.lock i) .shared :: .access (.pollInEvents i) false :: .access (.clientInfos i) false ::
    .access (.terminateNow i socket) false ::
    ((deadlineBreach i socket).ops ++ ((increment i socket).ops ++ []))))

theorem advance_pollOps (i : Fin k) (socket : ℤ) :
    advance [] (pollOps i socket) = [(.lock i, .shared)] := by
  rw [pollOps, advance_ops, advance_ops]
  simp only [advance]
  rw [advance_ops, advance_ops, advance]

theorem mem_pollOps {i : Fin k} {socket : ℤ} {m : Mode}
    (h : .acquire (.lock i) m ∈ pollOps i socket) : m = .shared := by
  simpa [pollOps, size, update, deadlineBreach, increment, under, join, Scoped.read, Scoped.write, ops,
    ops_append] using h

/-- A turn that reads one packet. -/
def readsOne (socket : ℤ) (packet : NetworkPacket) : Incoming k :=
  ⟨false, [(socket, .readable [packet] false false)], [], []⟩

theorem poll_blank (th : Threading) (i : Fin k) (socket : ℤ) (o : Outgoing) :
    ∃ rest, (join [size i, pollAndRead i th (readsOne socket ⟨socket, Commands.blank, []⟩) o]).ops =
      pollOps i socket ++ .access (.terminateOnNextCycle i socket) true :: rest :=
  ⟨_, rfl⟩

theorem poll_clientID (th : Threading) (i : Fin k) (socket : ℤ) (o : Outgoing) :
    ∃ rest, (join [size i, pollAndRead i th (readsOne socket ⟨socket, Commands.Setup.clientID, []⟩) o]).ops =
      pollOps i socket ++ .access (.clientId i socket) true :: rest :=
  ⟨_, rfl⟩

/-- What the health check does at a protocol before it looks at the flag of a client. -/
def checkOps (i : Fin k) : List (LockOp (LockName k) (Place k)) :=
  (timestampsSize i).ops ++ ((getSocketsLessThanTimestamp i).ops ++
    [.acquire (.lock i) .shared, .access (.clientInfos i) false])

theorem advance_checkOps (i : Fin k) : advance [] (checkOps i) = [(.lock i, .shared)] := by
  rw [checkOps, advance_ops, advance_ops]
  rfl

theorem check_flagged (i : Fin k) (socket : ℤ) :
    ∃ rest, (execHealthCheck i 1 [(socket, some (true, false))]).ops =
      checkOps i ++ .access (.terminateOnNextCycle i socket) false :: rest :=
  ⟨_, rfl⟩

/-- The health check comes to the flag of a client with its map held. -/
theorem healthCheck_flag (i : Fin k) (socket : ℤ) :
    ∃ before rest, (join ((List.finRange k).map fun i =>
        execHealthCheck i 1 [(socket, some (true, false))])).ops =
      before ++ .access (.terminateOnNextCycle i socket) false :: rest ∧
      advance [] before = [(LockName.lock i, Mode.shared)] := by
  obtain ⟨l1, l2, hsplit⟩ := List.append_of_mem (List.mem_finRange i)
  obtain ⟨rest, hrest⟩ := check_flagged i socket
  refine ⟨(join (l1.map fun i => execHealthCheck i 1 [(socket, some (true, false))])).ops ++ checkOps i,
    rest ++ (join (l2.map fun i => execHealthCheck i 1 [(socket, some (true, false))])).ops, ?_, ?_⟩
  · rw [hsplit, List.map_append, ops_join_append, List.map_cons, join, ops_append, hrest]
    simp only [List.append_assoc, List.cons_append]
  · rw [advance_ops, advance_checkOps]

theorem race_flag (i : Fin k) (socket : ℤ) :
    ∃ history w, Run (LockStep (Calls th) strict) quiet history w ∧
      Races w (.terminateOnNextCycle i socket) := by
  obtain ⟨before, rest, hops, hheld⟩ := healthCheck_flag i socket
  obtain ⟨rest', hops'⟩ := poll_blank th i socket ⟨[], false, false⟩
  obtain ⟨history, w, hr, ht, hu⟩ := exists_race strict Calls.orderly (t := .healthCheck)
    (u := .pollAndRead i) nofun (.healthCheck _ _) (.pollAndRead i _ _) hops hops' fun l m m' hm hl => by
      rw [hheld, List.mem_singleton] at hl
      cases hl
      exact ⟨mem_pollOps hm, rfl⟩
  exact ⟨history, w, hr, .pollAndRead i, .healthCheck, _, _, _, (by nofun), hu, ht⟩

/-- What the executing thread does before the callback reads the id of a client. -/
def execOps (i : Fin k) : List (LockOp (LockName k) (Place k)) :=
  (size i).ops ++ (.acquire (.readMutex i) .exclusive :: .release (.readMutex i) ::
    .acquire (.readMutex i) .exclusive :: .access (.packetsToRead i) false ::
    .access (.packetsToRead i) true :: .release (.readMutex i) :: .acquire (.lock i) .shared ::
    [.access (.clientInfos i) false, .access (.clientInfos i) false])

theorem mem_execOps {i : Fin k} {m : Mode} (h : .acquire (.lock i) m ∈ execOps i) : m = .shared := by
  simpa [execOps, size, under, join, Scoped.read, ops, ops_append] using h

theorem exec_clientId (h : th.separate = true) (i : Fin k) (socket : ℤ) :
    ∃ rest, (join [size i, executeAndWrite i th ⟨[(socket, true)], false, false⟩]).ops =
      execOps i ++ .access (.clientId i socket) false :: rest := by
  rw [executeAndWrite, h]
  exact ⟨_, rfl⟩

theorem race_clientId (h : th.separate = true) (i : Fin k) (socket : ℤ) :
    ∃ history w, Run (LockStep (Calls th) strict) quiet history w ∧ Races w (.clientId i socket) := by
  obtain ⟨rest, hops⟩ := poll_clientID th i socket ⟨[], false, false⟩
  obtain ⟨rest', hops'⟩ := exec_clientId h i socket
  obtain ⟨history, w, hr, ht, hu⟩ := exists_race strict Calls.orderly (t := .pollAndRead i)
    (u := .executeAndWrite i) nofun (.pollAndRead i _ _) (.executeAndWrite i _ h) hops hops'
    fun l m m' hm hl => by
      rw [advance_pollOps, List.mem_singleton] at hl
      cases hl
      exact ⟨mem_execOps hm, rfl⟩
  exact ⟨history, w, hr, .pollAndRead i, .executeAndWrite i, _, _, _, (by nofun), ht, hu⟩

/-- **A place is raced on exactly if it is one of the bare ones**: whatever the threads find and
however their steps interleave, the guards protect all the others. `th` has the builds, but for
`PC_GAIN_SPEED_BY_GUARD_DISABLE` and the analyzers of `PC_PROFILE`. -/
theorem raced_iff (th : Threading) (strict : Bool) (p : Place k) :
    (∃ history w, Run (LockStep (Calls th) strict) quiet history w ∧ Races w p) ↔
      p.Bare th.separate := by
  constructor
  · rintro ⟨history, w, hr, t, u, write, rest, rest', htu, ht, hu⟩
    rw [← protectors_none]
    by_contra hp
    obtain ⟨gs, hgs⟩ := Option.ne_none_iff_exists'.mp hp
    exact absurd ((Run.locksKept Calls.orderly hr).no_race htu hgs ht hu).1 nofun
  · intro hp
    cases p with
    | terminateOnNextCycle i socket => exact race_flag i socket
    | clientId i socket => exact race_clientId hp i socket
    | _ => exact hp.elim

/-- **Sections do not interfere.** As long as a thread has what lets it write a place, no other
thread touches it, and as long as it has what lets it read one, no other thread writes it. -/
theorem sections_isolated {history more : List (ThreadName k × LockOp (LockName k) (Place k))}
    {w w' : ThreadName k → Thread (LockName k) (Place k)}
    (hr : Run (LockStep (Calls th) strict) quiet history w) {t : ThreadName k} {p : Place k}
    {write : Bool} (hp : ¬p.Bare th.separate)
    (h0 : Allows (protectors th.separate) t (w t).held write p)
    (hm : Run (fun w es w' => LockStep (Calls th) strict w es w' ∧
      Allows (protectors th.separate) t (w' t).held write p) w more w') :
    ∀ u ≠ t, ∀ write', (u, .access p write') ∈ more → write = false ∧ write' = false := by
  rw [← protectors_none] at hp
  obtain ⟨gs, hgs⟩ := Option.ne_none_iff_exists'.mp hp
  have hcovered : Run (fun w es w' => LockStep (Calls th) strict w es w' ∧
      Covered t (w' t).held write gs) w more w' :=
    hm.refine fun _ _ _ hs => .next .start ⟨hs.1, hs.2 gs hgs⟩
  intro u hu write' hmem
  exact (Run.locksKept Calls.orderly hr).isolated Calls.orderly hgs (h0 gs hgs) hcovered hu.symm hmem

/-- The states of two threads that ask for the number of clients. -/
def asking (polls executes : Thread (LockName 1) (Place 1)) : ThreadName 1 → Thread (LockName 1) (Place 1)
  | .pollAndRead _ => polls
  | .executeAndWrite _ => executes
  | _ => ⟨[], []⟩

variable {polls executes thread : Thread (LockName 1) (Place 1)}

theorem update_polls (i : Fin 1) :
    Function.update (asking polls executes) (.pollAndRead i) thread = asking thread executes := by
  funext t
  cases t with
  | pollAndRead j => rw [Subsingleton.elim j i, Function.update_self, asking]
  | _ => exact Function.update_of_ne (by simp) _ _

theorem update_executes (i : Fin 1) :
    Function.update (asking polls executes) (.executeAndWrite i) thread = asking polls thread := by
  funext t
  cases t with
  | executeAndWrite j => rw [Subsingleton.elim j i, Function.update_self, asking]
  | _ => exact Function.update_of_ne (by simp) _ _

theorem grants_asking {l : LockName 1} (hpolls : ∀ m, (l, m) ∈ polls.held → m = .shared)
    (hexecutes : ∀ m, (l, m) ∈ executes.held → m = .shared)
    (hp : ∀ rest, polls.todo ≠ .acquire l .exclusive :: rest)
    (he : ∀ rest, executes.todo ≠ .acquire l .exclusive :: rest) :
    Grants true (asking polls executes) l .shared := by
  constructor
  · intro u m hm
    cases u with
    | pollAndRead i => exact ⟨rfl, hpolls m hm⟩
    | executeAndWrite i => exact ⟨rfl, hexecutes m hm⟩
    | _ => exact absurd hm List.not_mem_nil
  · intro _ _ u
    cases u with
    | pollAndRead i => exact hp
    | executeAndWrite i => exact he
    | _ => exact fun _ h => List.cons_ne_nil _ _ h.symm

/-- Two threads ask for the number of clients, and both hold the lock at once. -/
theorem sections_isolated_shared :
    ∃ (i : Fin 1) (history more : List (ThreadName 1 × LockOp (LockName 1) (Place 1)))
      (w w' : ThreadName 1 → Thread (LockName 1) (Place 1)),
      Run (LockStep (Calls ⟨true, false⟩) true) quiet history w ∧
      Run (LockStep (Calls ⟨true, false⟩) true) w more w' ∧
      (.executeAndWrite i, .access (.clientInfos i) false) ∈ more ∧
      ∀ u ≠ .pollAndRead i, ∀ write, (u, .access (.clientInfos i) write) ∈ more → write = false := by
  obtain ⟨i⟩ : Nonempty (Fin 1) := ⟨0⟩
  let asked : Thread (LockName 1) (Place 1) := ⟨[], (size i).ops⟩
  let inside : Thread (LockName 1) (Place 1) :=
    ⟨[(.lock i, .shared)], [.access (.clientInfos i) false, .release (.lock i)]⟩
  let leaving : Thread (LockName 1) (Place 1) := ⟨[(.lock i, .shared)], [.release (.lock i)]⟩
  have hquiet : (quiet : ThreadName 1 → Thread (LockName 1) (Place 1)) = asking ⟨[], []⟩ ⟨[], []⟩ := by
    funext t
    cases t <;> rfl
  have h1 : LockStep (Calls ⟨true, false⟩) true (asking ⟨[], []⟩ ⟨[], []⟩) [] _ :=
    .call (t := .pollAndRead i) (.idle i) rfl
  rw [update_polls] at h1
  have h2 : LockStep (Calls ⟨true, false⟩) true (asking asked ⟨[], []⟩) [] _ :=
    .call (t := .executeAndWrite i) (.separateIdle i rfl) rfl
  rw [update_executes] at h2
  have h3 : LockStep (Calls ⟨true, false⟩) true (asking asked asked) _ _ :=
    .acquire (t := .pollAndRead i) rfl
      (grants_asking (by simp [asked]) (by simp [asked]) (fun _ h => by cases h) fun _ h => by cases h)
  rw [update_polls] at h3
  have h4 : LockStep (Calls ⟨true, false⟩) true (asking inside asked) _ _ :=
    .acquire (t := .executeAndWrite i) rfl
      (grants_asking (by simp [inside]) (by simp [asked]) (fun _ h => by cases h) fun _ h => by cases h)
  rw [update_executes] at h4
  have h5 : LockStep (Calls ⟨true, false⟩) true (asking inside inside) _ _ :=
    .access (t := .executeAndWrite i) rfl
  rw [update_executes] at h5
  have h6 : LockStep (Calls ⟨true, false⟩) true (asking inside leaving) _ _ :=
    .access (t := .pollAndRead i) rfl
  rw [update_polls] at h6
  have hallows : ∀ polls executes : Thread (LockName 1) (Place 1), polls.held = [(.lock i, .shared)] →
      Allows (protectors true) (.pollAndRead i) (asking polls executes (.pollAndRead i)).held false
        (.clientInfos i) := by
    intro polls executes hheld gs hgs
    cases hgs
    rw [asking, hheld]
    exact Or.inr ⟨Or.inr ⟨rfl, List.mem_singleton_self _⟩, rfl⟩
  have hr : Run (LockStep (Calls ⟨true, false⟩) true) quiet
      [(.pollAndRead i, .acquire (.lock i) .shared)] (asking inside asked) := by
    rw [hquiet]
    exact ((Run.start.next h1).next h2).next h3
  have hm := ((Run.start.next h4).next h5).next h6
  have hheld : Run (fun w es w' => LockStep (Calls ⟨true, false⟩) true w es w' ∧
      Allows (protectors true) (.pollAndRead i) (w' (.pollAndRead i)).held false (.clientInfos i))
      (asking inside asked) _ _ :=
    ((Run.start.next ⟨h4, hallows _ _ rfl⟩).next ⟨h5, hallows _ _ rfl⟩).next ⟨h6, hallows _ _ rfl⟩
  exact ⟨i, _, _, _, _, hr, hm, by simp, fun u hu write hmem =>
    (sections_isolated (p := .clientInfos i) hr id (hallows inside asked rfl) hheld u hu write hmem).2⟩

end PollServer.Sections
