import PollServer.Model.Sections
import PollServer.Model.Server

/-! The threads of the sample server, each at a point of its loop. They go on call by call, and in
`downCallback` client by client; a call reads the clock once. -/

namespace PollServer

open Lib
open Sections (Threading)

/-- What the loop of `PollAndRead` comes to next; in `downCallback`, the turns that are left. -/
inductive PollAndRead where
  | size
  | pollRead
  | closeSocketConnections (socketsToTerminate : List ℤ)
  | downCallback (count : ℕ) (prevSocket : ℤ)
  | execute
  | write

inductive ExecuteAndWrite where
  | size
  | execute
  | write

/-- `next` is the protocol that `execHealthCheck` comes to, and `since` the time from which it has
been asleep or awake. -/
inductive HealthCheck where
  | asleep (since : ℤ)
  | checking (since : ℤ) (next : ℕ) (socketsToClose : List ℤ)

/-- `child` is what `main` has accepted and not added yet, with its `currentBalance`. -/
structure Program (k n : ℕ) where
  server : Server k
  clock : ℤ
  child : Option (ℤ × ℕ)
  pollAndRead : Fin k → PollAndRead
  buffer : Fin k → Buffer n
  executeAndWrite : Fin k → ExecuteAndWrite
  healthCheck : HealthCheck

/-- What a history of the program tells. Of a call of `Execute` it tells what was taken from
`packetsToRead`, and what the callback was called with: with nothing for a packet whose client
is gone. -/
inductive Happening (k : ℕ) where
  | event (e : Event k)
  | read (i : Fin k) (packets : List NetworkPacket)
  | executed (i : Fin k) (packetsToRead : List NetworkPacket)
      (calls : List (NetworkPacket × ClientInfo))
  | moved (socket : ℤ)
  deriving DecidableEq

namespace Program

variable {k n : ℕ} (th : Threading) (w : Program k n) (i : Fin k)

def start (clock : ℤ) (buffer : Fin k → Buffer n) : Program k n where
  server := .start 10 (fun i => (i : ℕ)) k
  clock := clock
  child := none
  pollAndRead _ := .size
  buffer := buffer
  executeAndWrite _ := .size
  healthCheck := .asleep clock

abbrev clients : ClientInfoMap := (w.server.protocols i).clients

@[simp] def executing : Happening k :=
  .executed i (w.server.protocols i).clientInfos.packetsToRead (w.server.protocols i).clientInfos.calls

def polls (next : PollAndRead) : Program k n :=
  { w with pollAndRead := Function.update w.pollAndRead i next }

def executes (next : ExecuteAndWrite) : Program k n :=
  { w with executeAndWrite := Function.update w.executeAndWrite i next }

/-- Behind `CloseSocketConnections`. -/
def afterClosing : PollAndRead := if th.separate then .size else .execute

def afterReading (socketsToTerminate : List ℤ) : PollAndRead :=
  if socketsToTerminate.isEmpty then afterClosing th else .closeSocketConnections socketsToTerminate

/-- With what `downCallback` is called with, if it is. -/
def afterRemoving : Option ℕ → PollAndRead
  | none => afterClosing th
  | some count => if th.switch then .downCallback count (-1) else afterClosing th

/-- The kernel gives `main` a descriptor that no connection has. -/
inductive Turn (b : Build) (shot : Shot) (callback : NetworkPacket → ClientInfo → NetworkPacket)
    (time : ℤ) : Program k n → List (Happening k) → Program k n → Prop where
  | accept {w : Program k n} (socket : ℤ) (hc : w.child = none) (h0 : 0 ≤ socket)
      (hs : socket < 2 ^ 31) (hf : ∀ i, socket ∉ w.clients i) :
      Turn b shot callback time w [] { w with child := some (socket, w.server.balancer.nextIndex) }
  | add {w : Program k n} (socket : ℤ) (currentBalance : ℕ) (now : Timespec)
      (hc : w.child = some (socket, currentBalance)) (h : currentBalance < k) :
      Turn b shot callback time w
        [.event (.accepted socket), .event (.updated ⟨currentBalance, h⟩ socket time)]
        { w with
          child := none
          server := w.server.add ⟨currentBalance, h⟩ (.make socket deadlineMaxCountDefault now) time }
  | size {w : Program k n} (i : Fin k) (hp : w.pollAndRead i = .size)
      (hs : (w.server.protocols i).clientInfos.size ≠ 0) :
      Turn b shot callback time w [] (w.polls i .pollRead)
  | pollRead {w : Program k n} (i : Fin k) (events : List EpollEvent) (p : ServerLearnProtocol)
      (v : Polled n) (hp : w.pollAndRead i = .pollRead)
      (hr : (w.server.protocols i).pollRead b shot (w.buffer i) events time = .ok (p, v)) :
      Turn b shot callback time w
        ((v.dispatched.map Event.received ++ v.socketsWeReadAt.map (Event.updated i · time)).map .event ++
          [.read i v.dispatched])
        { w.polls i (afterReading th v.socketsToTerminate) with
          server := w.server.set i p
          buffer := Function.update w.buffer i v.buffer }
  | closeSocketConnections {w : Program k n} (i : Fin k) (sockets : List ℤ)
      (hp : w.pollAndRead i = .closeSocketConnections sockets) :
      Turn b shot callback time w []
        { w.polls i (afterRemoving th
            ((w.server.protocols i).closeSocketConnections w.server.balancer sockets).2.1) with
          server := w.server.setBoth i
            ((w.server.protocols i).closeSocketConnections w.server.balancer sockets).2.2 }
  | switched {w : Program k n} (i : Fin k) (count : ℕ) (prevSocket begin : ℤ) (maxIdx minIdx : Fin k)
      (clientInfo : ClientInfo) (hp : w.pollAndRead i = .downCallback (count + 1) prevSocket)
      (hs : w.server.switching begin prevSocket = some (maxIdx, minIdx, clientInfo)) :
      Turn b shot callback time w
        [.event (.updated minIdx clientInfo.socket time), .moved clientInfo.socket]
        { w.polls i (.downCallback count clientInfo.socket) with
          server := w.server.move maxIdx minIdx begin time }
  | broken {w : Program k n} (i : Fin k) (count : ℕ) (prevSocket begin : ℤ)
      (hp : w.pollAndRead i = .downCallback (count + 1) prevSocket)
      (hs : w.server.switching begin prevSocket = none) :
      Turn b shot callback time w [] (w.polls i (afterClosing th))
  | counted {w : Program k n} (i : Fin k) (prevSocket : ℤ)
      (hp : w.pollAndRead i = .downCallback 0 prevSocket) :
      Turn b shot callback time w [] (w.polls i (afterClosing th))
  | execute {w : Program k n} (i : Fin k) (hp : w.pollAndRead i = .execute) :
      Turn b shot callback time w [w.executing i]
        { w.polls i .write with
          server := w.server.set i ((w.server.protocols i).execute callback) }
  | write {w : Program k n} (i : Fin k) (sends : List (List SendEvent)) (closed : Option ℤ)
      (hp : w.pollAndRead i = .write)
      (hw : ((w.server.protocols i).write b sends).2.1 = .ok closed) :
      Turn b shot callback time w []
        { w.polls i .size with
          server := w.server.set i ((w.server.protocols i).write b sends).2.2 }
  | separateSize {w : Program k n} (i : Fin k) (h : th.separate = true)
      (he : w.executeAndWrite i = .size) (hs : (w.server.protocols i).clientInfos.size ≠ 0) :
      Turn b shot callback time w [] (w.executes i .execute)
  | separateExecute {w : Program k n} (i : Fin k) (h : th.separate = true)
      (he : w.executeAndWrite i = .execute) :
      Turn b shot callback time w [w.executing i]
        { w.executes i .write with
          server := w.server.set i ((w.server.protocols i).execute callback) }
  | separateWrite {w : Program k n} (i : Fin k) (sends : List (List SendEvent)) (closed : Option ℤ)
      (h : th.separate = true) (he : w.executeAndWrite i = .write)
      (hw : ((w.server.protocols i).write b sends).2.1 = .ok closed) :
      Turn b shot callback time w []
        { w.executes i .size with
          server := w.server.set i ((w.server.protocols i).write b sends).2.2 }
  | wake {w : Program k n} (since : ℤ) (hh : w.healthCheck = .asleep since) (hs : since + 10 ≤ time) :
      Turn b shot callback time w [] { w with healthCheck := .checking time 0 [] }
  | check {w : Program k n} (since : ℤ) (i : Fin k) (socketsToClose : List ℤ)
      (hh : w.healthCheck = .checking since i socketsToClose) :
      Turn b shot callback time w
        ((ClientInfos.filterSockets ((w.server.protocols i).considered time) (w.clients i)).2.1.map
          fun packet => .event (.warned packet.socket))
        { w with
          server := w.server.set i ((w.server.protocols i).execHealthCheck socketsToClose time).2
          healthCheck := .checking since (i + 1)
            ((w.server.protocols i).execHealthCheck socketsToClose time).1 }
  | closeSockets {w : Program k n} (since : ℤ) (socketsToClose : List ℤ)
      (hh : w.healthCheck = .checking since k socketsToClose) :
      Turn b shot callback time w [] { w with healthCheck := .asleep time }

/-- A turn of a thread at a time that is not before the last, which its happenings bear. -/
def Step (b : Build) (shot : Shot) (callback : NetworkPacket → ClientInfo → NetworkPacket)
    (w : Program k n) (es : List (ℤ × Happening k)) (w' : Program k n) : Prop :=
  ∃ time hs v, w.clock ≤ time ∧ Turn th b shot callback time w hs v ∧ es = hs.map (time, ·) ∧
    w' = { v with clock := time }

end Program

end PollServer
