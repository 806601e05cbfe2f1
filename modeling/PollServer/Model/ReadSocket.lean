import PollServer.Model.ClientInfo

/-! `ClientInfos::ReadForSingleSocket` in its two builds: `readSingleShot` without and
`readMultiShot` with `PC_OPTIMIZE_READ_MULTIPLE_SINGLE_SHOT`. -/

namespace PollServer

open Lib StopM NetworkPacket

/-- Everything a read of one client changes but the socket and the buffer. The last two
fields are written by no code: they log the packets dispatched, each with the counts made
before it, and the lengths decoded. -/
structure Session where
  clientInfo : ClientInfo
  readList : List NetworkPacket
  packetsToWrite : List NetworkPacket
  shutdown : Bool
  clock : ℕ → Timespec
  ticks : ℕ
  log : List (ℕ × NetworkPacket)
  lengths : List ℕ

namespace Session

def start (clientInfo : ClientInfo) (clock : ℕ → Timespec) : Session :=
  ⟨clientInfo, [], [], false, clock, 0, [], []⟩

/-- `++clientInfo.deadline`. -/
def count (s : Session) : Session :=
  { s with
    clientInfo := { s.clientInfo with deadline := s.clientInfo.deadline.increment (s.clock s.ticks) }
    ticks := s.ticks + 1 }

def decoded (packetSize : ℕ) (s : Session) : Session := { s with lengths := s.lengths ++ [packetSize] }

/-- `network::Socket::close`, which shuts the connection down. -/
def close (s : Session) : Session := { s with shutdown := true }

def react (socket : ℤ) (packet : NetworkPacket) (s : Session) : Session :=
  if packet.command = Commands.blank then
    { s with clientInfo := { s.clientInfo with terminateOnNextCycle := false } }
  else if packet.command = Commands.Setup.ack then
    { s with packetsToWrite := s.packetsToWrite ++ [⟨socket, Commands.Setup.syn, []⟩] }
  else if packet.command = Commands.Setup.clientID then
    { s with
      clientInfo := { s.clientInfo with clientId := packet.data }
      packetsToWrite := s.packetsToWrite ++ [⟨socket, Commands.Setup.join, []⟩] }
  else if packet.command = Commands.send then
    { s with
      clientInfo := { s.clientInfo with terminateOnNextCycle := false }
      readList := s.readList ++ [packet] }
  else s

def dispatch (socket : ℤ) (packet : NetworkPacket) (s : Session) : Session :=
  { s.react socket packet with log := s.log ++ [(s.ticks, packet)] }

def dispatched (s : Session) : List NetworkPacket := s.log.map Prod.snd

@[simp] theorem lengths_close (s : Session) : s.close.lengths = s.lengths := rfl
@[simp] theorem readList_close (s : Session) : s.close.readList = s.readList := rfl
@[simp] theorem dispatched_close (s : Session) : s.close.dispatched = s.dispatched := rfl

@[simp] theorem dispatched_dispatch (socket : ℤ) (packet : NetworkPacket) (s : Session) :
    (s.dispatch socket packet).dispatched = s.dispatched ++ [packet] :=
  List.map_append

theorem deadline_dispatch (socket : ℤ) (packet : NetworkPacket) (s : Session) :
    (s.dispatch socket packet).clientInfo.deadline = s.clientInfo.deadline := by
  simp only [dispatch, react]
  split_ifs <;> rfl

@[simp] theorem readList_dispatch (socket : ℤ) (packet : NetworkPacket) (s : Session) :
    (s.dispatch socket packet).readList =
      s.readList ++ if packet.command = Commands.send then [packet] else [] := by
  by_cases h : packet.command = Commands.send
  · simp [dispatch, react, h, Commands.send_ne]
  · simp only [dispatch, react, if_neg h]
    split_ifs <;> simp

@[simp] theorem lengths_dispatch (socket : ℤ) (packet : NetworkPacket) (s : Session) :
    (s.dispatch socket packet).lengths = s.lengths := by
  simp only [dispatch, react]
  split_ifs <;> rfl

end Session

structure ReadState (n : ℕ) where
  inb : Inbound n
  session : Session

abbrev ReadM (n : ℕ) : Type → Type := StopM Stop (ReadState n)

namespace ReadM

variable {n : ℕ} {α β : Type}

def check (b : Build) (p : Prop) [Decidable p] : ReadM n Unit := fun s => (assert b p, s)

def onBuffer (f : Buffer n → Except Stop (Buffer n)) : ReadM n Unit := fun s =>
  match f s.inb.buffer with
  | .ok buf => (.ok (), { s with inb := { s.inb with buffer := buf } })
  | .error stop => (.error stop, s)

def fromBuffer (f : Buffer n → Except Stop α) : ReadM n α := ask fun s => f s.inb.buffer

def receive (f : Inbound n → Except Stop Result × Inbound n) : ReadM n Result := fun s =>
  ((f s.inb).1, { s with inb := (f s.inb).2 })

def onSession (f : Session → Session) : ReadM n Unit := fun s =>
  (.ok (), { s with session := f s.session })

@[simp] theorem onSession_apply (f : Session → Session) (s : ReadState n) :
    onSession f s = (.ok (), { s with session := f s.session }) := rfl

theorem onBuffer_ok {f : Buffer n → Except Stop (Buffer n)} {s : ReadState n} {buf : Buffer n}
    (h : f s.inb.buffer = .ok buf) :
    onBuffer f s = (.ok (), { s with inb := { s.inb with buffer := buf } }) := by
  simp only [onBuffer, h]

theorem onBuffer_error {f : Buffer n → Except Stop (Buffer n)} {s : ReadState n} {e : Stop}
    (h : f s.inb.buffer = .error e) : onBuffer f s = (.error e, s) := by
  simp only [onBuffer, h]

end ReadM

open ReadM

section Read

variable {n : ℕ} (b : Build) (socket : ℤ)

def closeSocket : ReadM n ClientPollResult := do
  onSession Session.close
  return { terminate := true }

/-- `++clientInfo.deadline`, then the length of the packet behind it. -/
def nextPacketSize : ReadM n ℕ := do
  onSession Session.count
  let size ← fromBuffer (extractPacketSizeFromBuffer b)
  onSession (Session.decoded size.toSizeT)
  return size.toSizeT

def checkPacketSize (packetSize : ℕ) : ReadM n Unit := do
  check b (packetSize < n)
  if n ≤ packetSize then stop .invalidArgument else return ()

/-- Constructs the packet at the offset, moves behind it and acts on it. -/
def takePacket (packetSize : ℕ) : ReadM n Unit := do
  let packet ← fromBuffer fun buf => ofBuffer b socket buf (BitVec.ofNat 16 packetSize)
  onBuffer (·.offsetBy b packetSize)
  onSession (Session.dispatch socket packet)

def readSingleShot : ReadM n ClientPollResult := do
  onBuffer (·.setOffset b 0)
  let recvResult ← receive (recvFixedBytes b sizeBytes true)
  if recvResult.isFailure then closeSocket
  else
    let packetSize ← nextPacketSize b
    let recvResult ← receive (recvFixedBytes b packetSize true)
    if recvResult.isFailure then closeSocket
    else
      checkPacketSize b packetSize
      takePacket b socket packetSize
      return { read := true }

/-- The read that starts an iteration with less than a length field; `none` when it
fails. -/
def refill (bytesToRead : ℕ) : ReadM n (Option ℕ) := do
  if bytesToRead < sizeBytes then
    onBuffer (·.offsetBy b bytesToRead)
    let recvResult ← receive (recvAsManyAsPossibleAsync b)
    if recvResult.isFailure then return none
    else
      onBuffer (·.offsetBack b bytesToRead)
      return some (addSize bytesToRead recvResult.noOfBytes)
  else return some bytesToRead

/-- The read of a packet that has not wholly arrived; `none` when it fails. -/
def readExtra (packetSize bytesToRead : ℕ) : ReadM n (Option ℕ) := do
  if bytesToRead < packetSize then
    let extraElements := subSize packetSize bytesToRead
    onBuffer (·.moveToStart b)
    onBuffer (·.setOffset b bytesToRead)
    let recvResult ← receive (recvFixedBytes b extraElements true)
    if recvResult.isFailure then return none
    else
      onBuffer (·.setOffset b 0)
      return some (addSize bytesToRead recvResult.noOfBytes)
  else return some bytesToRead

/-- An iteration from the size check on; `loop` is the iterations after it. -/
def readBody (loop : ℕ → ReadM n ClientPollResult) (packetSize bytesToRead : ℕ) :
    ReadM n ClientPollResult := do
  checkPacketSize b packetSize
  match ← readExtra b packetSize bytesToRead with
  | none => closeSocket
  | some bytesToRead =>
    takePacket b socket packetSize
    let bytesToRead := subSize bytesToRead packetSize
    if 0 < bytesToRead then loop bytesToRead else return { read := true }

def readFrame (loop : ℕ → ReadM n ClientPollResult) (bytesToRead : ℕ) :
    ReadM n ClientPollResult := do
  let packetSize ← nextPacketSize b
  onBuffer (·.offsetBy b sizeBytes)
  readBody b socket loop packetSize (subSize bytesToRead sizeBytes)

/-- The `do`-`while` loop, with fuel. -/
def multiShotLoop : ℕ → ℕ → ReadM n ClientPollResult
  | 0, _ => stop .diverges
  | fuel + 1, bytesToRead => do
    match ← refill b bytesToRead with
    | none => closeSocket
    | some bytesToRead => readFrame b socket (multiShotLoop fuel) bytesToRead

/-- The fuel is more than the loop can use: every iteration moves the offset forward by
two bytes, and it is set back to the start of the array once. -/
def readMultiShot : ReadM n ClientPollResult := do
  onBuffer (·.setOffset b 0)
  multiShotLoop b socket (2 * n + 2) 0

end Read

/-- The buffer of `PollAndRead`, as its allocation may leave it. -/
def sampleBuffer : Buffer 106 := .filled 0 (by decide) (by decide)

/-- A fresh client of the sample server, of whose peer the server will see `events`. -/
def sampleState (events : List RecvEvent) : ReadState 106 :=
  ⟨⟨sampleBuffer, events, []⟩, .start (.make 5 deadlineMaxCountDefault ⟨0, 0⟩) fun k => ⟨k, 0⟩⟩

end PollServer
