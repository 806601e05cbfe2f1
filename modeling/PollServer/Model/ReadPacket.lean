import PollServer.Model.Tcp

/-! `TCPPoll::recvFixedBytes` and `RawPacket::Read`, with which a client reads one packet.
What `poll` answers is a list of events, like what `recv` does; at its end `poll` times
out. -/

namespace PollServer

open Lib StopM NetworkPacket

/-- What `poll::single` finds: `POLLIN` is set, it is not set or the time is over, or the
call fails. -/
inductive PollEvent where
  | readable
  | unready
  | failed
  deriving DecidableEq

structure Wire (n : ℕ) where
  inb : Inbound n
  polls : List PollEvent

section Wire

variable {n : ℕ} (b : Build) (socket : ℤ)

/-- The poll before a receive, which does not happen with a `timeout` of zero. -/
def pollIn (timeout : ℕ) : StopM Stop (Wire n) Bool := fun w =>
  if timeout = 0 then (.ok true, w)
  else
    match w.polls with
    | [] => (.ok false, w)
    | .readable :: polls => (.ok true, { w with polls := polls })
    | .unready :: polls => (.ok false, { w with polls := polls })
    | .failed :: polls => (.error .runtimeError, { w with polls := polls })

def recvFixed (size : ℕ) : StopM Stop (Wire n) Result := fun w =>
  ((recvFixedBytes b size true w.inb).1, { w with inb := (recvFixedBytes b size true w.inb).2 })

/-- `TCPPoll::recvFixedBytes`. -/
def pollRecvFixedBytes (size timeout : ℕ) : StopM Stop (Wire n) Result := do
  if ← pollIn timeout then recvFixed b size else return { pollFailure := true }

/-- What `Read` answers to a receive that failed. -/
def failedPacket (recvData : Result) : NetworkPacket :=
  if recvData.pollFailure then ⟨socket, Commands.empty, []⟩
  else ⟨socket, Commands.MajorErrors.socketClosed, []⟩

/-- `RawPacket::Read` from the payload on. -/
def readPayload (timeout : ℕ) (bytesToRead : PacketSize) : StopM Stop (Wire n) NetworkPacket := do
  ask fun w => assert b (bytesToRead.toSizeT < w.inb.buffer.size)
  let recvData ← pollRecvFixedBytes b bytesToRead.toSizeT timeout
  if recvData.isFailure then return failedPacket socket recvData
  else
    ask fun _ => assert b (recvData.noOfBytes = bytesToRead.toSizeT)
    ask fun w => ofBuffer b socket w.inb.buffer bytesToRead

def readPacket (timeout : ℕ) : StopM Stop (Wire n) NetworkPacket := do
  let recvData ← pollRecvFixedBytes b sizeBytes timeout
  if recvData.isFailure then return failedPacket socket recvData
  else
    let bytesToRead ← ask fun w => extractPacketSizeFromBuffer b w.inb.buffer
    readPayload b socket timeout bytesToRead

end Wire

end PollServer
