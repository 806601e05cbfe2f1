import PollServer.Limit.Calls
import PollServer.Read.Replies
import PollServer.Read.Stream
import PollServer.Serve.Delivery
import PollServer.Serve.Rate
import PollServer.Write.Sending

/-! One client in `SetupConnection`, and the protocols of a server of which one has its
connection. Between them are two channels of bytes. -/

namespace PollServer

open Lib StopM NetworkPacket

/-- The connection has the descriptor `fd` at the server. `transit` are the clients between
`removeOldestClientAndReturn` and `add`, `shut` is that the server has shut the connection
down, and `gone` that it has closed it. -/
structure Handshake (k m n : ℕ) where
  protocols : Fin k → Polled n
  transit : List ClientInfo
  stage : Stage m
  c2s : List Byte
  s2c : List Byte
  shut : Bool
  gone : Bool

/-- The client goes on to its next send or read; a polling thread starts `onReadPoll`, takes
a turn of its loop, or hands on what it has read; and the other operations of a protocol. -/
inductive HandshakeOp (k n : ℕ) where
  | client
  | pollRead (i : Fin k) (buffer : Buffer n)
  | turn (i : Fin k) (event : EpollEvent)
  | handOn (i : Fin k)
  | execute (i : Fin k)
  | write (i : Fin k) (sends : List (List SendEvent))
  | filterSocketsToTerminate (i : Fin k) (socketsSelected : List ℤ)
  | close (i : Fin k) (socketsToRemove : List ℤ) (balancer : Priority) (balancerIndex : ℕ)
  | removeOldest (i : Fin k) (socket : ℤ) (now : Timespec)
  | add (i : Fin k) (clientInfo : ClientInfo)

/-- The packets that the client has sent. -/
def sentPackets (acts : List Act) : List NetworkPacket :=
  acts.filterMap fun
    | .sent packet _ => some packet
    | _ => none

/-- What `write` hands to the kernel for the descriptor `fd`. -/
def handedTo (b : Build) (fd : ℤ) : List NetworkPacket → List (List SendEvent) → List Byte
  | [], _ => []
  | packet :: packets, sends =>
    match sendRaw b (packet.marshall b.order) (sends.headD []) with
    | .error _ => []
    | .ok sent =>
      (if packet.socket = fd then sent.wire else []) ++
        if sent.result.socketClosed then [] else handedTo b fd packets sends.tail

namespace Handshake

variable {k m n : ℕ} (b : Build) (shot : Shot) (fd : ℤ) (w : Handshake k m n) (i : Fin k)

def clients : ClientInfos := (w.protocols i).clients

def setPolled (v : Polled n) : Handshake k m n :=
  { w with protocols := Function.update w.protocols i v }

def setClients (cs : ClientInfos) : Handshake k m n :=
  w.setPolled i { w.protocols i with clients := cs }

/-- The client takes from its channel what its reads have received. -/
def client : Option (Handshake k m n) :=
  let s := w.stage.calling
  let stage := w.stage.next b
  let took := (arrived s.wire.inb.events).length - (arrived stage.calling.wire.inb.events).length
  if (arrived s.wire.inb.events).take took <+: w.s2c then
    some { w with
      stage := stage
      c2s := w.c2s ++ stage.calling.handed.drop s.handed.length
      s2c := w.s2c.drop took }
  else none

/-- The end of a read of the connection, if a turn reads from it. -/
def readEnd (event : EpollEvent) : Option (ReadState n) :=
  if w.gone then none
  else
    (readFrom b fd (w.protocols i) event).map fun c =>
      (readForSingleSocket b shot event.fd (readStart (w.protocols i) event c)).2

/-- A turn that reads from the connection takes from its channel what it has received. -/
def turn (event : EpollEvent) : Option (Handshake k m n) :=
  match pollEvent b shot (w.protocols i) event with
  | .error _ => none
  | .ok v =>
    match w.readEnd b shot fd i event with
    | none => some (w.setPolled i v)
    | some s =>
      if arrived event.recv <+: w.c2s then
        some { w.setPolled i v with
          c2s := w.c2s.drop ((arrived event.recv).length - (arrived s.inb.events).length)
          shut := w.shut || s.session.shutdown }
      else none

def pollRead (buffer : Buffer n) : Handshake k m n :=
  w.setPolled i ⟨(w.clients i).update, buffer, [], [], [], []⟩

/-- The end of `onReadPoll`. -/
def handOn : Handshake k m n :=
  w.setPolled i { w.protocols i with
    clients := { w.clients i with
      packetsToRead := (w.clients i).packetsToRead ++ (w.protocols i).readList }
    readList := [] }

/-- Once the connection is shut down, the kernel takes nothing more for it. -/
def write (sends : List (List SendEvent)) : Option (Handshake k m n) :=
  match (w.clients i).write b sends with
  | (_, .error _, _) => none
  | (_, .ok closed, cs) =>
    let handed := handedTo b fd (w.clients i).packetsToWrite sends
    if w.gone then some (w.setClients i cs)
    else if w.shut ∧ handed ≠ [] then none
    else
      some { w.setClients i cs with
        s2c := w.s2c ++ handed
        shut := w.shut || closed = some fd }

def close (socketsToRemove : List ℤ) (balancer : Priority) (balancerIndex : ℕ) : Handshake k m n :=
  { w.setClients i (ClientInfos.close socketsToRemove (w.clients i) balancer balancerIndex).2.1 with
    gone := w.gone || (fd ∈ socketsToRemove ∧ fd ∈ (w.clients i).clientInfos) }

def removeOldest (socket : ℤ) (now : Timespec) : Handshake k m n :=
  let r := (w.clients i).removeOldestClientAndReturn socket now
  { w.setClients i r.2 with transit := r.1 :: w.transit }

/-- A client on its way, or one of another connection. -/
def add (clientInfo : ClientInfo) : Option (Handshake k m n) :=
  if clientInfo ∈ w.transit then
    some { w.setClients i ((w.clients i).insert clientInfo) with
      transit := w.transit.erase clientInfo }
  else if clientInfo.socket ≠ fd ∨ w.gone then
    some (w.setClients i ((w.clients i).insert clientInfo))
  else none

def exec (callback : Callback) : HandshakeOp k n → Option (Handshake k m n)
  | .client => w.client b
  | .pollRead i buffer => some (w.pollRead i buffer)
  | .turn i event => w.turn b shot fd i event
  | .handOn i => some (w.handOn i)
  | .execute i => some (w.setClients i ((w.clients i).execute callback.run))
  | .write i sends => w.write b fd i sends
  | .filterSocketsToTerminate i socketsSelected =>
    some (w.setClients i ((w.clients i).filterSocketsToTerminate socketsSelected).2)
  | .close i socketsToRemove balancer balancerIndex =>
    some (w.close fd i socketsToRemove balancer balancerIndex)
  | .removeOldest i socket now => some (w.removeOldest i socket now)
  | .add i clientInfo => w.add fd i clientInfo

/-- The steps that `Allowed` lets happen. -/
def Step (callback : Callback) (Allowed : Handshake k m n → HandshakeOp k n → Prop)
    (w : Handshake k m n) (ops : List (HandshakeOp k n)) (w' : Handshake k m n) : Prop :=
  ∃ op, ops = [op] ∧ Allowed w op ∧ w.exec b shot fd callback op = some w'

end Handshake

end PollServer
