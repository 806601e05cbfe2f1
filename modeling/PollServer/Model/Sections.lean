import Mathlib.Tactic.DeriveFintype
import PollServer.Lib.Scoped
import PollServer.Model.Packet

/-! The locks of the sample server. A function is given with what it finds, and says which locks
it takes in which modes and what it touches while it holds them; what it may write counts as
written. What only the calling thread can reach is left out: its lists of packets, its sets of
sockets, and a client that is not in a map yet or any more. -/

namespace PollServer.Sections

open Lib Lib.Scoped

/-- The macros that decide which threads there are, and what `downCallback` does. -/
structure Threading where
  /-- `PC_SEPARATE_POLL_EXEC_WRITE` -/
  separate : Bool
  /-- `PC_SWITCH_CLIENTS_BETWEEN_THREADS_BALANCE` -/
  switch : Bool

inductive ThreadName (k : ℕ) where
  | main
  | healthCheck
  | pollAndRead (i : Fin k)
  | executeAndWrite (i : Fin k)
  deriving DecidableEq, Fintype

/-- The members of `ClientInfos`, `MostRecentTimestamps`, `Deadline` and `priority` that are
locks, and the static one of `downCallback`. -/
inductive LockName (k : ℕ) where
  | lock (i : Fin k)
  | readMutex (i : Fin k)
  | writeMutex (i : Fin k)
  | mostRecentTimestampsLock (i : Fin k)
  | deadline (i : Fin k) (socket : ℤ)
  | balancer
  | downCallback
  deriving DecidableEq

/-- What more than one call reaches. The places of a socket are those of its client, and
`clientInfos` is the map that it is found in. -/
inductive Place (k : ℕ) where
  | clientInfos (i : Fin k)
  | updateIssued (i : Fin k)
  | pollInEvents (i : Fin k)
  | packetsToRead (i : Fin k)
  | packetsToWrite (i : Fin k)
  | timestamps (i : Fin k)
  | sizes
  | queue (i : Fin k) (socket : ℤ)
  | clientId (i : Fin k) (socket : ℤ)
  | terminateOnNextCycle (i : Fin k) (socket : ℤ)
  | terminateNow (i : Fin k) (socket : ℤ)

abbrev Code (k : ℕ) := Scoped (LockName k) (Place k)

variable {k : ℕ}

/-! ### `priority` -/

def nextIndex : Code k := under .balancer .exclusive [read .sizes]

def maxIndex : Code k := under .balancer .exclusive [read .sizes]

def incPriority : Code k := under .balancer .exclusive [write .sizes]

def decPriority : Code k := under .balancer .exclusive [write .sizes]

/-- `operator<<` -/
def printed : Code k := under .balancer .exclusive [read .sizes]

variable (i : Fin k)

/-! ### `MostRecentTimestamps` -/

def timestampsSize : Code k :=
  under (.mostRecentTimestampsLock i) .exclusive [read (.timestamps i)]

def getSocketsLessThanTimestamp : Code k :=
  under (.mostRecentTimestampsLock i) .exclusive [read (.timestamps i)]

def updateFor (sockets : List ℤ) : Code k :=
  if sockets.isEmpty then skip
  else under (.mostRecentTimestampsLock i) .exclusive [write (.timestamps i)]

def updateSingle : Code k :=
  under (.mostRecentTimestampsLock i) .exclusive [write (.timestamps i)]

def remove : Code k :=
  under (.mostRecentTimestampsLock i) .exclusive [write (.timestamps i)]

def removeSingle : Code k :=
  under (.mostRecentTimestampsLock i) .exclusive [write (.timestamps i)]

/-! ### `ClientInfo`: the guards of `Atomic` are copies of its lock, and lock nothing -/

def increment (socket : ℤ) : Code k :=
  under (.deadline i socket) .exclusive [write (.queue i socket)]

def deadlineBreach (socket : ℤ) : Code k :=
  under (.deadline i socket) .exclusive [read (.queue i socket)]

/-- `Deadline::MaxCount() const` has no guard. -/
def deadlineMaxCount (socket : ℤ) : Code k := read (.queue i socket)

def terminateThisCycleOrNext (socket : ℤ) (onNextCycle now : Bool) : Code k :=
  join [read (.terminateOnNextCycle i socket),
    if onNextCycle then skip
    else join [read (.terminateNow i socket),
      if now then skip else write (.terminateOnNextCycle i socket)]]

/-- All members that can change, for a copy, a construction or a destruction. -/
def members (touched : Place k → Code k) (socket : ℤ) : Code k :=
  join [touched (.queue i socket), touched (.clientId i socket),
    touched (.terminateOnNextCycle i socket), touched (.terminateNow i socket)]

/-! ### `ClientInfos` -/

/-- Of each socket to remove, whether there is a client with it. -/
def close (socketsToRemove : List (ℤ × Bool)) : Code k :=
  under (.lock i) .exclusive (socketsToRemove.map fun (socket, found) =>
    join [read (.clientInfos i),
      if found then
        join [deadlineMaxCount i socket, decPriority, write (.clientInfos i), members i write socket]
      else skip])

def insert (socket : ℤ) (present : Bool) : Code k :=
  under (.lock i) .exclusive [
    if present then read (.clientInfos i)
    else join [write (.clientInfos i), members i write socket],
    write (.updateIssued i)]

/-- Of each selected socket, the flags of its client, if there is one. -/
def filterSocketsToTerminate (socketsSelected : List (ℤ × Option (Bool × Bool))) : Code k :=
  join [
    join (socketsSelected.map fun (socket, flags) =>
      under (.lock i) .shared [read (.clientInfos i),
        match flags with
        | none => skip
        | some (onNextCycle, now) => terminateThisCycleOrNext i socket onNextCycle now]),
    if socketsSelected.any fun (_, flags) => flags = some (false, false) then
      under (.writeMutex i) .exclusive [write (.packetsToWrite i)]
    else skip]

/-- Of each packet to read, its socket, and whether there is a client with it. The timed `Wait`
gives the mutex back in between. -/
def execute (separate : Bool) (packetsToRead : List (ℤ × Bool)) (clientInfosEmpty : Bool) : Code k :=
  join [
    if separate then under (.readMutex i) .exclusive [] else skip,
    under (.readMutex i) .exclusive [read (.packetsToRead i),
      if packetsToRead.isEmpty then skip else write (.packetsToRead i)],
    if packetsToRead.isEmpty then skip
    else
      under (.lock i) .shared [read (.clientInfos i),
        if clientInfosEmpty then skip
        else
          join [
            join (packetsToRead.map fun (socket, found) =>
              join [read (.clientInfos i), if found then read (.clientId i socket) else skip]),
            under (.writeMutex i) .exclusive [write (.packetsToWrite i)]]]]

def update (updateIssued : Bool) : Code k :=
  join [under (.lock i) .shared [read (.updateIssued i)],
    if updateIssued then
      under (.lock i) .exclusive
        [read (.clientInfos i), write (.pollInEvents i), write (.updateIssued i)]
    else skip]

/-- `empty` and `size` -/
def size : Code k := under (.lock i) .shared [read (.clientInfos i)]

def oldestSocket : Code k := under (.lock i) .shared [read (.clientInfos i)]

/-- With the socket that `begin()` points to, if there is one. -/
def removeOldestClientAndReturn (oldest : Option ℤ) : Code k :=
  under (.lock i) .exclusive [read (.clientInfos i),
    match oldest with
    | none => skip
    | some socket =>
      join [members i read socket, write (.clientInfos i), members i write socket]]

/-- `Write`, and whether there is anything to write. -/
def writeOut (pending : Bool) : Code k :=
  under (.writeMutex i) .exclusive [read (.packetsToWrite i),
    if pending then write (.packetsToWrite i) else skip]

/-- The branches of `ReadForSingleSocket` on the command of a packet. -/
def reaction (socket : ℤ) (packet : NetworkPacket) : Code k :=
  if packet.command = Commands.blank then write (.terminateOnNextCycle i socket)
  else if packet.command = Commands.Setup.ack then
    under (.writeMutex i) .exclusive [write (.packetsToWrite i)]
  else if packet.command = Commands.Setup.clientID then
    join [write (.clientId i socket), under (.writeMutex i) .exclusive [write (.packetsToWrite i)]]
  else if packet.command = Commands.send then write (.terminateOnNextCycle i socket)
  else skip

/-- The packets that are read whole, and whether a further one is begun. -/
def readForSingleSocket (socket : ℤ) (packets : List NetworkPacket) (begun : Bool) : Code k :=
  join [
    join (packets.map fun packet => join [increment i socket, reaction i socket packet]),
    if begun then increment i socket else skip]

/-- How far `OnReadPoll` comes with an event. -/
inductive Polled where
  | hangup
  | unknown
  | terminateNow
  | deadlineBreach
  | unreadable
  | readable (packets : List NetworkPacket) (begun failed : Bool)

def polled (socket : ℤ) : Polled → Code k
  | .hangup => skip
  | .unknown => read (.clientInfos i)
  | .terminateNow => join [read (.clientInfos i), read (.terminateNow i socket)]
  | .deadlineBreach | .unreadable =>
    join [read (.clientInfos i), read (.terminateNow i socket), deadlineBreach i socket]
  | .readable packets begun _ =>
    join [read (.clientInfos i), read (.terminateNow i socket), deadlineBreach i socket,
      readForSingleSocket i socket packets begun]

/-- The event puts packets into `readList`. -/
def Polled.sends : Polled → Bool
  | .readable packets _ _ => packets.any fun packet => packet.command = Commands.send
  | _ => false

/-- The event puts its socket into `socketsWeReadAt`. -/
def Polled.succeeds : Polled → Bool
  | .readable _ _ failed => !failed
  | _ => false

/-- `Wait` writes the events while no lock is held. -/
def onReadPoll (events : List (ℤ × Polled)) : Code k :=
  join [write (.pollInEvents i),
    if events.isEmpty then skip
    else
      under (.lock i) .shared (events.map fun (socket, event) =>
        join [read (.pollInEvents i), polled i socket event]),
    if events.any fun (_, event) => event.sends then
      under (.readMutex i) .exclusive [write (.packetsToRead i)]
    else skip]

/-! ### `ServerLearnProtocol` -/

def add (socket : ℤ) (present : Bool) : Code k :=
  join [insert i socket present, incPriority, updateSingle i]

def execHealthCheck (size : ℕ) (socketsSelected : List (ℤ × Option (Bool × Bool))) : Code k :=
  join [timestampsSize i,
    if size = 0 then skip
    else join [getSocketsLessThanTimestamp i,
      if socketsSelected.isEmpty then skip else filterSocketsToTerminate i socketsSelected]]

def removeOldest (oldest : Option ℤ) : Code k :=
  join [removeOldestClientAndReturn i oldest, decPriority, removeSingle i]

def pollRead (updateIssued : Bool) (events : List (ℤ × Polled)) : Code k :=
  join [update i updateIssued, onReadPoll i events,
    updateFor i ((events.filter fun (_, event) => event.succeeds).map (·.1))]

/-! ### The sample server -/

/-- How far `downCallback` comes in a turn of its loop. -/
inductive Switch (k : ℕ) where
  | balanced
  | vacant (maxIdx : Fin k)
  | same (maxIdx : Fin k)
  | switched (maxIdx minIdx : Fin k) (oldest : Option ℤ) (present : Bool)

def switchClient : Switch k → Code k
  | .balanced => skip
  | .vacant maxIdx => size maxIdx
  | .same maxIdx => join [size maxIdx, oldestSocket maxIdx]
  | .switched maxIdx minIdx oldest present =>
    join [size maxIdx, oldestSocket maxIdx, removeOldest maxIdx oldest,
      add minIdx (oldest.getD (-1)) present, printed]

def downCallback (t : Threading) (turns : List (Switch k)) : Code k :=
  if t.switch then
    join (turns.map fun turn =>
      under .downCallback .exclusive [maxIndex, nextIndex, switchClient turn])
  else skip

def closeSocketConnections (t : Threading) (socketsToRemove : List (ℤ × Bool))
    (turns : List (Switch k)) : Code k :=
  join [close i socketsToRemove,
    if socketsToRemove.any (·.2) then join [remove i, downCallback t turns] else skip]

/-- What `Execute` and `Write` find. -/
structure Outgoing where
  packetsToRead : List (ℤ × Bool)
  clientInfosEmpty : Bool
  packetsToWrite : Bool

def executeAndWrite (t : Threading) (o : Outgoing) : Code k :=
  join [execute i t.separate o.packetsToRead o.clientInfosEmpty, writeOut i o.packetsToWrite]

/-- What a turn of `PollAndRead` finds. -/
structure Incoming (k : ℕ) where
  updateIssued : Bool
  events : List (ℤ × Polled)
  socketsToTerminate : List (ℤ × Bool)
  turns : List (Switch k)

def pollAndRead (t : Threading) (v : Incoming k) (o : Outgoing) : Code k :=
  join [pollRead i v.updateIssued v.events,
    if v.socketsToTerminate.isEmpty then skip
    else closeSocketConnections i t v.socketsToTerminate v.turns,
    if t.separate then skip else executeAndWrite i t o]

/-- The turns of the threads' loops. -/
inductive Calls (t : Threading) : ThreadName k → Code k → Prop where
  | main (i : Fin k) (socket : ℤ) (present : Bool) :
      Calls t .main (join [nextIndex, add i socket present, printed])
  | healthCheck (size : Fin k → ℕ) (socketsSelected : Fin k → List (ℤ × Option (Bool × Bool))) :
      Calls t .healthCheck
        (join ((List.finRange k).map fun i => execHealthCheck i (size i) (socketsSelected i)))
  | idle (i : Fin k) : Calls t (.pollAndRead i) (size i)
  | pollAndRead (i : Fin k) (v : Incoming k) (o : Outgoing) :
      Calls t (.pollAndRead i) (join [size i, pollAndRead i t v o])
  | separateIdle (i : Fin k) (h : t.separate = true) : Calls t (.executeAndWrite i) (size i)
  | executeAndWrite (i : Fin k) (o : Outgoing) (h : t.separate = true) :
      Calls t (.executeAndWrite i) (join [size i, executeAndWrite i t o])

end PollServer.Sections
