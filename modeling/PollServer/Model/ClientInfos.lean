import PollServer.Lib.Keyed
import PollServer.Model.ReadSocket
import PollServer.Model.Priority

/-! `ClientInfos`: the clients of one protocol, and the packets that wait to be executed
and to be written. A set of sockets is a list without repetitions. -/

namespace PollServer

open Lib

abbrev ClientInfoMap := Keyed ClientInfo.socket

structure ClientInfos where
  clientInfos : ClientInfoMap
  updateIssued : Bool
  pollInEvents : ℕ
  packetsToRead : List NetworkPacket
  packetsToWrite : List NetworkPacket

/-- With `PC_OPTIMIZE_READ_MULTIPLE_SINGLE_SHOT`, or without. -/
inductive Shot where
  | single
  | multi
  deriving DecidableEq

def readForSingleSocket {n : ℕ} (b : Build) : Shot → ℤ → ReadM n ClientPollResult
  | .single => readSingleShot b
  | .multi => readMultiShot b

/-- One of the events `epoll_wait` returns, with what a read of its socket meets and the
times its call gets from the clock. `hangUp` is any of `EPOLLHUP`, `EPOLLRDHUP` and
`EPOLLERR`. -/
structure EpollEvent where
  fd : ℤ
  hangUp : Bool := false
  readable : Bool := false
  recv : List RecvEvent := []
  now : Timespec := ⟨0, 0⟩
  clock : ℕ → Timespec := fun _ => ⟨0, 0⟩

/-- What `onReadPoll` has found so far. `dispatched` logs the packets that were read. -/
structure Polled (n : ℕ) where
  clients : ClientInfos
  buffer : Buffer n
  readList : List NetworkPacket
  socketsWeReadAt : List ℤ
  socketsToTerminate : List ℤ
  dispatched : List NetworkPacket

namespace ClientInfos

variable (cs : ClientInfos)

def make : ClientInfos := ⟨.empty, false, 5, [], []⟩

def size : ℕ := cs.clientInfos.entries.length

/-- The loop of `close`. The sockets it leaves in the set are those it closed. -/
def close : List ℤ → ClientInfos → Priority → ℕ → List ℤ × ClientInfos × Priority
  | [], cs, balancer, _ => ([], cs, balancer)
  | socket :: sockets, cs, balancer, balancerIndex =>
    match cs.clientInfos.find socket with
    | some info =>
      let (closed, cs, balancer) :=
        close sockets { cs with clientInfos := cs.clientInfos.erase socket }
          (balancer.decPriority balancerIndex info.deadlineMaxCount) balancerIndex
      (socket :: closed, cs, balancer)
    | none => close sockets cs balancer balancerIndex

def insert (clientInfo : ClientInfo) : ClientInfos :=
  { cs with clientInfos := cs.clientInfos.insert clientInfo, updateIssued := true }

/-- The loop of `filterSocketsToTerminate`: the sockets it leaves in the set, the warnings
and the clients. -/
def filterSockets : List ℤ → ClientInfoMap → List ℤ × List NetworkPacket × ClientInfoMap
  | [], infos => ([], [], infos)
  | socket :: sockets, infos =>
    match infos.find socket with
    | some info =>
      let (terminateNow, info) := info.terminateThisCycleOrNext
      let (selected, warnings, infos) := filterSockets sockets (infos.put info)
      if terminateNow then (socket :: selected, warnings, infos)
      else (selected, ⟨socket, Commands.heartBeat, []⟩ :: warnings, infos)
    | none =>
      let (selected, warnings, infos) := filterSockets sockets infos
      (socket :: selected, warnings, infos)

def filterSocketsToTerminate (socketsSelected : List ℤ) : List ℤ × ClientInfos :=
  let (selected, warningMessageList, infos) := filterSockets socketsSelected cs.clientInfos
  (selected,
    { cs with clientInfos := infos, packetsToWrite := cs.packetsToWrite ++ warningMessageList })

/-- What `execute` calls the callback with. -/
def calls : List (NetworkPacket × ClientInfo) :=
  cs.packetsToRead.filterMap fun packet => (cs.clientInfos.find packet.socket).map (packet, ·)

/-- A packet whose client is gone goes on as it came. -/
def respond (callback : NetworkPacket → ClientInfo → NetworkPacket) (packet : NetworkPacket) :
    NetworkPacket :=
  match cs.clientInfos.find packet.socket with
  | some info => callback packet info
  | none => packet

def execute (callback : NetworkPacket → ClientInfo → NetworkPacket) : ClientInfos :=
  if cs.packetsToRead.isEmpty then cs
  else if cs.clientInfos.entries.isEmpty then { cs with packetsToRead := [] }
  else
    { cs with
      packetsToRead := []
      packetsToWrite := cs.packetsToWrite ++ cs.packetsToRead.map (cs.respond callback) }

def update : ClientInfos :=
  if cs.updateIssued then
    { cs with pollInEvents := max cs.pollInEvents cs.size, updateIssued := false }
  else cs

/-- The client that `begin()` points to: that of `socket`, if it is there. The order of an
`unordered_map` is not the caller's to know. -/
def oldest (socket : ℤ) : Option ClientInfo :=
  (cs.clientInfos.find socket).or cs.clientInfos.entries.head?

def removeOldestClientAndReturn (socket : ℤ) (now : Timespec) : ClientInfo × ClientInfos :=
  match cs.oldest socket with
  | none => (.make (-1) deadlineMaxCountDefault now, cs)
  | some clientInfo =>
    (clientInfo, { cs with clientInfos := cs.clientInfos.erase clientInfo.socket })

/-- `write` over the list of packets, each with what its `send`s are answered. A call that
does not return has still written what it wrote before. -/
def writeLoop (b : Build) :
    List NetworkPacket → List (List SendEvent) → List NetworkPacket × Except Stop (Option ℤ)
  | [], _ => ([], .ok none)
  | packet :: packets, sends =>
    match sendRaw b (packet.marshall b.order) (sends.headD []) with
    | .error stop => ([packet], .error stop)
    | .ok sent =>
      if sent.result.socketClosed then ([packet], .ok (some packet.socket))
      else
        let (attempted, closed) := writeLoop b packets sends.tail
        (packet :: attempted, closed)

def write (b : Build) (sends : List (List SendEvent)) :
    List NetworkPacket × Except Stop (Option ℤ) × ClientInfos :=
  let (attempted, closed) := writeLoop b cs.packetsToWrite sends
  (attempted, closed, { cs with packetsToWrite := [] })

end ClientInfos

section Poll

variable {n : ℕ} (b : Build) (shot : Shot)

/-- The read of one client of the loop of `onReadPoll`. -/
def readClient (event : EpollEvent) (clientInfo : ClientInfo) (v : Polled n) :
    Except Stop (Polled n) :=
  let session := { Session.start clientInfo event.clock with
    readList := v.readList, packetsToWrite := v.clients.packetsToWrite }
  let (result, s) := readForSingleSocket b shot event.fd ⟨⟨v.buffer, event.recv, []⟩, session⟩
  match result with
  | .error stop => .error stop
  | .ok result =>
    .ok
      { v with
        clients := { v.clients with
          clientInfos := v.clients.clientInfos.put s.session.clientInfo
          packetsToWrite := s.session.packetsToWrite }
        buffer := s.inb.buffer
        readList := s.session.readList
        socketsToTerminate :=
          if result.terminate then v.socketsToTerminate.insert event.fd else v.socketsToTerminate
        socketsWeReadAt :=
          if ¬result.terminate ∧ result.read then v.socketsWeReadAt.insert event.fd
          else v.socketsWeReadAt
        dispatched := v.dispatched ++ s.session.dispatched }

/-- One turn of the loop of `onReadPoll`. -/
def pollEvent (v : Polled n) (event : EpollEvent) : Except Stop (Polled n) :=
  let terminated := { v with socketsToTerminate := v.socketsToTerminate.insert event.fd }
  if event.hangUp then .ok terminated
  else
    match v.clients.clientInfos.find event.fd with
    | none => .ok terminated
    | some clientInfo =>
      if clientInfo.terminateNow then .ok terminated
      else do
        if ← clientInfo.deadlineBreach b event.now then return terminated
        else if event.readable then readClient b shot event clientInfo v
        else return v

def onReadPoll (cs : ClientInfos) (buffer : Buffer n) (events : List EpollEvent) :
    Except Stop (Polled n) := do
  let v ← (events.take cs.pollInEvents).foldlM (pollEvent b shot) ⟨cs, buffer, [], [], [], []⟩
  return { v with
    clients := { v.clients with packetsToRead := v.clients.packetsToRead ++ v.readList } }

end Poll

end PollServer
