import PollServer.Lib.Runs
import PollServer.Model.ClientInfos
import PollServer.Model.Timestamps

/-! `ServerLearnProtocol`, and the sample server over it: protocols that share a balancer,
each with a polling thread of its own. -/

namespace PollServer

open Lib

structure ServerLearnProtocol where
  timeout : ℤ
  clientInfos : ClientInfos
  mostRecentTimestamps : MostRecentTimestamps
  balancerIndex : ℕ

namespace ServerLearnProtocol

variable (p : ServerLearnProtocol) (balancer : Priority)

def make (timeout : ℤ) (balancerIndex : ℕ) : ServerLearnProtocol :=
  ⟨timeout, .make, .empty, balancerIndex⟩

def clients : ClientInfoMap := p.clientInfos.clientInfos

def add (clientInfo : ClientInfo) (time : ℤ) : ServerLearnProtocol × Priority :=
  ({ p with
      clientInfos := p.clientInfos.insert clientInfo
      mostRecentTimestamps := p.mostRecentTimestamps.updateSingle clientInfo.socket time },
    balancer.incPriority p.balancerIndex clientInfo.deadlineMaxCount)

/-- The set that `execHealthCheck` hands to `filterSocketsToTerminate`, if it is not empty. -/
def considered (now : ℤ) : List ℤ :=
  if p.mostRecentTimestamps.size = 0 then []
  else p.mostRecentTimestamps.getSocketsLessThanTimestamp [] p.timeout now

def execHealthCheck (socketsSelected : List ℤ) (now : ℤ) : List ℤ × ServerLearnProtocol :=
  let socketsSelectedLocal := p.considered now
  if socketsSelectedLocal.isEmpty then (socketsSelected, p)
  else
    let (selected, clientInfos) := p.clientInfos.filterSocketsToTerminate socketsSelectedLocal
    (socketsSelected ∪ selected, { p with clientInfos := clientInfos })

def removeOldestClientAndReturn (socket : ℤ) (now : Timespec) :
    ClientInfo × ServerLearnProtocol × Priority :=
  let (clientInfo, clientInfos) := p.clientInfos.removeOldestClientAndReturn socket now
  (clientInfo,
    { p with
      clientInfos := clientInfos
      mostRecentTimestamps := p.mostRecentTimestamps.removeSingle clientInfo.socket },
    balancer.decPriority p.balancerIndex clientInfo.deadlineMaxCount)

def execute (callback : NetworkPacket → ClientInfo → NetworkPacket) : ServerLearnProtocol :=
  { p with clientInfos := p.clientInfos.execute callback }

/-- The protocol, with what `onReadPoll` found. -/
def pollRead {n : ℕ} (b : Build) (shot : Shot) (buffer : Buffer n) (events : List EpollEvent)
    (time : ℤ) : Except Stop (ServerLearnProtocol × Polled n) := do
  let v ← onReadPoll b shot p.clientInfos.update buffer events
  return ({ p with
      clientInfos := v.clients
      mostRecentTimestamps := p.mostRecentTimestamps.updateFor v.socketsWeReadAt time }, v)

/-- The sockets left in the set, and the count that `downCallback` is called with. -/
def closeSocketConnections (socketsToRemove : List ℤ) :
    List ℤ × Option ℕ × ServerLearnProtocol × Priority :=
  let (closed, clientInfos, balancer) :=
    ClientInfos.close socketsToRemove p.clientInfos balancer p.balancerIndex
  if closed.isEmpty then (closed, none, { p with clientInfos := clientInfos }, balancer)
  else
    (closed, some closed.length,
      { p with
        clientInfos := clientInfos
        mostRecentTimestamps := p.mostRecentTimestamps.remove closed }, balancer)

def write (b : Build) (sends : List (List SendEvent)) :
    List NetworkPacket × Except Stop (Option ℤ) × ServerLearnProtocol :=
  let (attempted, closed, clientInfos) := p.clientInfos.write b sends
  (attempted, closed, { p with clientInfos := clientInfos })

end ServerLearnProtocol

/-- `pollCallback` of the sample server. -/
def pollCallback (packet : NetworkPacket) (clientInfo : ClientInfo) : NetworkPacket :=
  { packet with
    data := packet.data ++ Commands.ascii " was received from ".toList ++ clientInfo.clientId }

structure Server (k : ℕ) where
  protocols : Fin k → ServerLearnProtocol
  balancer : Priority

/-- What the operations do that a history is asked about. -/
inductive Event (k : ℕ) where
  | accepted (socket : ℤ)
  | updated (i : Fin k) (socket time : ℤ)
  | received (packet : NetworkPacket)
  | warned (socket : ℤ)
  deriving DecidableEq

/-- The operations of the threads. A socket given to `removeOldest` or `move` is the one
that `begin()` points to; `move` is a turn of the loop of `downCallback`. -/
inductive Op (k n : ℕ) where
  | add (i : Fin k) (clientInfo : ClientInfo)
  | pollRead (i : Fin k) (buffer : Buffer n) (events : List EpollEvent)
  | closeSocketConnections (i : Fin k) (sockets : List ℤ)
  | removeOldest (i : Fin k) (socket : ℤ)
  | move (i j : Fin k) (socket : ℤ)
  | execHealthCheck (i : Fin k)
  | execute (i : Fin k)
  | write (i : Fin k) (sends : List (List SendEvent))

namespace Server

variable {k n : ℕ} (s : Server k)

/-- Protocols of the given balancer indices, before any client. -/
def start (timeout : ℤ) (balancerIndex : Fin k → ℕ) (maxCount : ℕ) : Server k :=
  ⟨fun i => .make timeout (balancerIndex i), .make maxCount⟩

def set (i : Fin k) (p : ServerLearnProtocol) : Server k :=
  { s with protocols := Function.update s.protocols i p }

def setBoth (i : Fin k) (r : ServerLearnProtocol × Priority) : Server k :=
  ⟨Function.update s.protocols i r.1, r.2⟩

def add (i : Fin k) (clientInfo : ClientInfo) (time : ℤ) : Server k :=
  s.setBoth i ((s.protocols i).add s.balancer clientInfo time)

/-- A turn of the loop of `main` that accepts connections. -/
def accept (clientInfo : ClientInfo) (time : ℤ) : Except Stop (Server k) :=
  let currentBalance := s.balancer.nextIndex
  if h : currentBalance < k then .ok (s.add ⟨currentBalance, h⟩ clientInfo time)
  else .error .outOfBounds

def removeOldest (i : Fin k) (socket time : ℤ) : ClientInfo × Server k :=
  let r := (s.protocols i).removeOldestClientAndReturn s.balancer socket ⟨time, 0⟩
  (r.1, s.setBoth i r.2)

/-- The client that `i` gives away goes to `j`. -/
def move (i j : Fin k) (socket time : ℤ) : Server k :=
  let r := s.removeOldest i socket time
  r.2.add j r.1 time

/-- The loop of `downCallback` with `PC_SWITCH_CLIENTS_BETWEEN_THREADS_BALANCE`; `begin`
tells what `begin()` points to in each turn. A turn is one step: no other thread empties the
protocol between `empty()`, `OldestSocket()` and `RemoveOldestClientAndReturn`. -/
def downCallback (begin : ℕ → ℤ) (time : ℤ) : ℕ → ℤ → Server k → Server k
  | 0, _, s => s
  | count + 1, prevSocket, s =>
    let maxIdx := s.balancer.maxIndex
    let minIdx := s.balancer.nextIndex
    if h : maxIdx < k ∧ minIdx < k then
      if maxIdx = minIdx then s
      else
        match (s.protocols ⟨maxIdx, h.1⟩).clientInfos.oldest (begin count) with
        | none => s
        | some oldest =>
          if oldest.socket = prevSocket then s
          else
            downCallback begin time count oldest.socket
              (s.move ⟨maxIdx, h.1⟩ ⟨minIdx, h.2⟩ (begin count) time)
    else s

/-- The client that a turn of the loop of `downCallback` takes, where from and where to; none if
the turn ends the loop. -/
def switching (s : Server k) (begin prevSocket : ℤ) :
    Option (Fin k × Fin k × ClientInfo) :=
  let maxIdx := s.balancer.maxIndex
  let minIdx := s.balancer.nextIndex
  if h : maxIdx < k ∧ minIdx < k then
    if maxIdx = minIdx then none
    else
      match (s.protocols ⟨maxIdx, h.1⟩).clientInfos.oldest begin with
      | none => none
      | some oldest =>
        if oldest.socket = prevSocket then none
        else some (⟨maxIdx, h.1⟩, ⟨minIdx, h.2⟩, oldest)
  else none

theorem downCallback_switching (s : Server k) (begin : ℕ → ℤ) (time : ℤ) (count : ℕ)
    (prevSocket : ℤ) :
    s.downCallback begin time (count + 1) prevSocket =
      match s.switching (begin count) prevSocket with
      | none => s
      | some (maxIdx, minIdx, clientInfo) =>
        (s.move maxIdx minIdx (begin count) time).downCallback begin time count clientInfo.socket := by
  simp only [downCallback, switching]
  split_ifs with h hne
  · rfl
  · cases (s.protocols ⟨s.balancer.maxIndex, h.1⟩).clientInfos.oldest (begin count) with
    | none => rfl
    | some oldest =>
      dsimp only
      split_ifs <;> rfl
  · rfl

/-- An operation at the time `time`, with its events. -/
def exec (b : Build) (shot : Shot) (callback : NetworkPacket → ClientInfo → NetworkPacket)
    (time : ℤ) : Op k n → Except Stop (List (Event k) × Server k)
  | .add i clientInfo =>
    .ok ([.accepted clientInfo.socket, .updated i clientInfo.socket time],
      s.add i clientInfo time)
  | .pollRead i buffer events =>
    match (s.protocols i).pollRead b shot buffer events time with
    | .error stop => .error stop
    | .ok (p, v) =>
      .ok (v.dispatched.map .received ++ v.socketsWeReadAt.map (.updated i · time), s.set i p)
  | .closeSocketConnections i sockets =>
    .ok ([], s.setBoth i ((s.protocols i).closeSocketConnections s.balancer sockets).2.2)
  | .removeOldest i socket => .ok ([], (s.removeOldest i socket time).2)
  | .move i j socket =>
    match (s.protocols i).clientInfos.oldest socket with
    | none => .ok ([], s)
    | some clientInfo =>
      .ok ([.updated j clientInfo.socket time], s.move i j socket time)
  | .execHealthCheck i =>
    let warned := (ClientInfos.filterSockets ((s.protocols i).considered time)
      (s.protocols i).clients).2.1
    .ok (warned.map fun packet => .warned packet.socket,
      s.set i ((s.protocols i).execHealthCheck [] time).2)
  | .execute i => .ok ([], s.set i ((s.protocols i).execute callback))
  | .write i sends =>
    match (s.protocols i).write b sends with
    | (_, .error stop, _) => .error stop
    | (_, .ok _, p) => .ok ([], s.set i p)

end Server

end PollServer
