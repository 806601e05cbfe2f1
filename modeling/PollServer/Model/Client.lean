import PollServer.Model.ReadPacket
import PollServer.Model.ReadSocket

/-! `ClientLearnProtocol`: the client's side of a connection. What its calls meet is a list
of poll answers, what `recv` and the `send`s do, and the times of a clock. -/

namespace PollServer

open Lib StopM NetworkPacket

structure ClientLearnProtocol where
  server : ℤ
  deadline : Deadline
  clientId : List Byte
  timeout : ℕ

/-- What the client does that the clock is asked about: it looks at its deadline, it counts,
and it sends a packet. -/
inductive Act where
  | looked (now : Timespec)
  | counted (now : Timespec)
  | sent (packet : NetworkPacket) (now : Timespec)
  deriving DecidableEq

def Act.time : Act → Timespec
  | looked now => now
  | counted now => now
  | sent _ now => now

/-- A client in a call. No code reads the last two fields: they log what was done, and all
that was handed to the kernel. -/
structure Calling (n : ℕ) where
  self : ClientLearnProtocol
  wire : Wire n
  sends : List (List SendEvent)
  clock : ℕ → Timespec
  ticks : ℕ
  acts : List Act
  handed : List Byte

abbrev ClientM (n : ℕ) : Type → Type := StopM Stop (Calling n)

namespace ClientLearnProtocol

variable {n : ℕ} (b : Build)

def onWire {α : Type} (m : ℕ → ℤ → StopM Stop (Wire n) α) : ClientM n α := fun s =>
  ((m s.self.timeout s.self.server s.wire).1,
    { s with wire := (m s.self.timeout s.self.server s.wire).2 })

/-- `operator bool` of the deadline. -/
def look : ClientM n Bool := fun s =>
  (s.self.deadline.breached b (s.clock s.ticks),
    { s with ticks := s.ticks + 1, acts := s.acts ++ [.looked (s.clock s.ticks)] })

/-- `++deadline`. -/
def count : ClientM n Unit := fun s =>
  (.ok (),
    { s with
      self := { s.self with deadline := s.self.deadline.increment (s.clock s.ticks) }
      ticks := s.ticks + 1
      acts := s.acts ++ [.counted (s.clock s.ticks)] })

/-- A packet to the server. -/
def packet (command data : List Byte) : ClientM n NetworkPacket := fun s =>
  (.ok ⟨s.self.server, command, data⟩, s)

/-- `sendRaw`, at the time of the last reading of the clock or at a later one. -/
def sendOut (p : NetworkPacket) : ClientM n Result := fun s =>
  match sendRaw b (p.marshall b.order) (s.sends.headD []) with
  | .error stop => (.error stop, { s with sends := s.sends.tail })
  | .ok sent =>
    (.ok sent.result,
      { s with
        sends := s.sends.tail
        ticks := s.ticks + 1
        acts := if sent.result.isSuccess then s.acts ++ [.sent p (s.clock s.ticks)] else s.acts
        handed := s.handed ++ sent.wire })

/-- `packet.Write(server, timeout)`, with `TCPPoll::write`. -/
def writeTo (p : NetworkPacket) : ClientM n Result := do
  if ← onWire fun timeout _ => pollIn timeout then sendOut b p else return { pollFailure := true }

def write (p : NetworkPacket) : ClientM n Result := do
  if ← look b then return { deadlineFailure := true }
  else
    count
    writeTo b p

/-- `NetworkPacket::Read(server, buffer, timeout)`. -/
def readFrom : ClientM n NetworkPacket := onWire fun timeout server => readPacket b server timeout

/-- `Read`, with fuel for the heartbeats that it answers. -/
def read : ℕ → ClientM n NetworkPacket
  | 0 => stop .diverges
  | fuel + 1 => do
    if ← look b then packet Commands.deadlineCrossed []
    else
      let p ← readFrom b
      count
      if p.command = Commands.heartBeat then
        let heartBeatReply ← packet Commands.blank []
        let _ ← write b heartBeatReply
        read fuel
      else return p

/-! `SetupConnection`, each read of it with what comes behind. -/

def readJoin (result : Result) : ClientM n Result := do
  if result.isFailure then return result
  else
    let join ← readFrom b
    if join.command ≠ Commands.Setup.join then return { result with socketClosed := true }
    else return result

/-- A packet with the client's identity, to the server. -/
def clientIdPacket : ClientM n NetworkPacket := fun s =>
  (.ok ⟨s.self.server, Commands.Setup.clientID, s.self.clientId⟩, s)

def readSyn (result : Result) : ClientM n Result := do
  if result.isFailure then return result
  else
    let ackSyn ← readFrom b
    if ackSyn.command ≠ Commands.Setup.syn then return { result with socketClosed := true }
    else
      let clientIdSend ← clientIdPacket
      let result ← writeTo b clientIdSend
      readJoin b result

def setupConnection : ClientM n Result := do
  let ackAck ← packet Commands.Setup.ack []
  let result ← write b ackAck
  readSyn b result

end ClientLearnProtocol

/-- Where a call of `SetupConnection` stands, between what it sends and what it reads. -/
inductive Stage (n : ℕ) where
  | fresh (s : Calling n)
  | awaitSyn (result : Result) (s : Calling n)
  | synced (s : Calling n)
  | awaitJoin (result : Result) (s : Calling n)
  | returned (r : Except Stop Result) (s : Calling n)

namespace Stage

variable {n : ℕ}

def calling : Stage n → Calling n
  | fresh s => s
  | awaitSyn _ s => s
  | synced s => s
  | awaitJoin _ s => s
  | returned _ s => s

/-- Behind a send, on to the read that waits for the answer. -/
def written (await : Result → Calling n → Stage n) : Except Stop Result × Calling n → Stage n
  | (.error stop, s) => returned (.error stop) s
  | (.ok result, s) => if result.isFailure then returned (.ok result) s else await result s

/-- Behind a read that has to be `command`. -/
def answered (command : List Byte) (result : Result) (go : Calling n → Stage n) :
    Except Stop NetworkPacket × Calling n → Stage n
  | (.error stop, s) => returned (.error stop) s
  | (.ok packet, s) =>
    if packet.command ≠ command then returned (.ok { result with socketClosed := true }) s else go s

/-- What the call sends next. -/
def outgoing : Stage n → Option NetworkPacket
  | fresh s => some ⟨s.self.server, Commands.Setup.ack, []⟩
  | synced s => some ⟨s.self.server, Commands.Setup.clientID, s.self.clientId⟩
  | _ => none

/-- One send or one read. -/
def next (b : Build) : Stage n → Stage n
  | fresh s =>
    written awaitSyn (ClientLearnProtocol.write b ⟨s.self.server, Commands.Setup.ack, []⟩ s)
  | awaitSyn result s =>
    answered Commands.Setup.syn result synced (ClientLearnProtocol.readFrom b s)
  | synced s =>
    written awaitJoin (ClientLearnProtocol.writeTo b
      ⟨s.self.server, Commands.Setup.clientID, s.self.clientId⟩ s)
  | awaitJoin result s =>
    answered Commands.Setup.join result (returned (.ok result)) (ClientLearnProtocol.readFrom b s)
  | returned r s => returned r s

end Stage

/-- A client whose clock stands still, and to whom the handshake is answered. -/
def sampleCalling (d : Deadline) : Calling 106 :=
  { self := ⟨3, d, Commands.ascii "one".toList, 0⟩
    wire := ⟨⟨sampleBuffer, [.arrive (0 :: 4 :: Commands.Setup.syn ++ 0 :: 4 :: Commands.Setup.join)],
      []⟩, []⟩
    sends := []
    clock := fun _ => ⟨1, 0⟩
    ticks := 0
    acts := []
    handed := [] }

end PollServer
