import PollServer.Model.Packet

/-! `Result.hpp` and `TCP.hpp`. What the kernel does on a socket is a list of events:
bytes that arrive, or an errno. A `recv` takes at most what it asked for from the first
event; an arrival of no bytes, like the end of the list, is the `0` of a closed peer. A
`send` takes as many bytes as the event says, or all of them at the end of the list. -/

namespace PollServer

open Lib

/-- `EWOULDBLOCK` is `EAGAIN` and `ENOTSUP` is `EOPNOTSUPP` on Linux. -/
inductive Errno where
  | eagain
  | eintr
  | enomem
  | ealready
  | etimedout
  | ebadf
  | epipe
  | eacces
  | econnreset
  | econnrefused
  | enotsock
  | enotconn
  | eopnotsupp
  | efault
  | other (code : ℕ)
  deriving DecidableEq

structure Result where
  noOfBytes : ℕ := 0
  socketClosed : Bool := false
  pollFailure : Bool := false
  deadlineFailure : Bool := false
  ignore : Bool := false
  deriving DecidableEq

def Result.isFailure (r : Result) : Bool :=
  r.noOfBytes == 0 || r.socketClosed || r.pollFailure || r.deadlineFailure

def Result.isSuccess (r : Result) : Bool := !r.isFailure

/-- What `handleError` is given by reference. -/
structure Attempt where
  result : Result := {}
  asyncFailCounter : ℕ := 0
  majorFailCount : ℕ := 0
  deriving DecidableEq

def handleError (b : Build) (errorCode : Errno) (v : Attempt) : Except Stop (Bool × Attempt) := do
  assert b (errorCode ≠ .enotsock)
  assert b (errorCode ≠ .enotconn)
  assert b (errorCode ≠ .efault)
  assert b (errorCode ≠ .eopnotsupp)
  match errorCode with
  | .eagain =>
    if 5 ≤ v.asyncFailCounter + 1 then
      return (true, { v with asyncFailCounter := 0, majorFailCount := v.majorFailCount + 1 })
    else
      return (true, { v with asyncFailCounter := v.asyncFailCounter + 1 })
  | .eintr | .enomem | .ealready | .etimedout =>
    return (true, { v with majorFailCount := v.majorFailCount + 1 })
  | .ebadf | .epipe | .eacces | .econnreset | .econnrefused | .enotsock | .enotconn
  | .eopnotsupp =>
    return (false, { v with result := { v.result with socketClosed := true } })
  | .efault | .other _ => return (false, v)

inductive RecvEvent where
  | arrive (bytes : List Byte)
  | fail (errorCode : Errno)
  deriving DecidableEq

/-- One `recv` or `send`: where in the buffer or the message it begins, and how much it is asked for. -/
structure Request where
  offset : ℕ
  len : ℕ
  deriving DecidableEq

/-- What the receiving functions work on, with the requests issued so far. -/
structure Inbound (n : ℕ) where
  buffer : Buffer n
  events : List RecvEvent
  requests : List Request

/-- The events left when `len` bytes were asked for and `bytes` had arrived. -/
def leftover (bytes : List Byte) (len : ℕ) (rest : List RecvEvent) : List RecvEvent :=
  if bytes.length ≤ len then rest else .arrive (bytes.drop len) :: rest

section Recv

variable {n : ℕ} (b : Build)

/-- The loop of `recvFixedBytes`, entered with `total` bytes received. -/
def recvLoop (dontWait : Bool) (size : ℕ) :
    List RecvEvent → Buffer n → List Request → ℕ → Attempt → Except Stop Result × Inbound n
  | [], buf, reqs, total, v =>
    let reqs := if total < size then reqs ++ [⟨buf.offset + total, size - total⟩] else reqs
    (.ok { v.result with noOfBytes := total }, ⟨buf, [], reqs⟩)
  | event :: rest, buf, reqs, total, v =>
    if size ≤ total then
      (.ok { v.result with noOfBytes := total }, ⟨buf, event :: rest, reqs⟩)
    else
      let reqs := reqs ++ [⟨buf.offset + total, size - total⟩]
      match event with
      | .arrive bytes =>
        let got := bytes.take (size - total)
        if got = [] then (.ok { v.result with noOfBytes := total }, ⟨buf, rest, reqs⟩)
        else
          match buf.store total got with
          | .error stop => (.error stop, ⟨buf, rest, reqs⟩)
          | .ok buf =>
            let total := addSize total got.length
            -- a chunk longer than the request fills it, and the loop is left
            if dontWait = false ∨ got.length < bytes.length then
              (.ok { v.result with noOfBytes := total },
                ⟨buf, leftover bytes got.length rest, reqs⟩)
            else recvLoop dontWait size rest buf reqs total v
      | .fail errorCode =>
        if dontWait = false then
          -- the `-1` of the blocking call is added to the unsigned total
          (.ok { v.result with noOfBytes := addSize total (2 ^ 64 - 1) }, ⟨buf, rest, reqs⟩)
        else
          match handleError b errorCode v with
          | .error stop => (.error stop, ⟨buf, rest, reqs⟩)
          | .ok (false, v) => (.ok { v.result with noOfBytes := total }, ⟨buf, rest, reqs⟩)
          | .ok (true, v) =>
            if 5 ≤ v.majorFailCount then
              (.ok { v.result with noOfBytes := total, socketClosed := true }, ⟨buf, rest, reqs⟩)
            else recvLoop dontWait size rest buf reqs total v

def recvFixedBytes (size : ℕ) (dontWait : Bool) (inb : Inbound n) : Except Stop Result × Inbound n :=
  recvLoop b dontWait size inb.events inb.buffer inb.requests 0 {}

def recv (dontWait : Bool) (inb : Inbound n) : Except Stop Result × Inbound n :=
  recvFixedBytes b inb.buffer.size dontWait inb

/-- A retry asks for the same `len` bytes, as nothing was stored before it. -/
def recvAsMany (len : ℕ) :
    List RecvEvent → Buffer n → List Request → Except Stop Result × Inbound n
  | [], buf, reqs => (.ok { socketClosed := true }, ⟨buf, [], reqs ++ [⟨buf.offset, len⟩]⟩)
  | .arrive bytes :: rest, buf, reqs =>
    let reqs := reqs ++ [⟨buf.offset, len⟩]
    let got := bytes.take len
    match buf.store 0 got with
    | .error stop => (.error stop, ⟨buf, rest, reqs⟩)
    | .ok stored =>
      (.ok { noOfBytes := got.length, socketClosed := got.length == 0 },
        ⟨stored, leftover bytes len rest, reqs⟩)
  | .fail errorCode :: rest, buf, reqs =>
    let reqs := reqs ++ [⟨buf.offset, len⟩]
    match handleError b errorCode {} with
    | .error stop => (.error stop, ⟨buf, rest, reqs⟩)
    | .ok (false, v) => (.ok { v.result with noOfBytes := 0 }, ⟨buf, rest, reqs⟩)
    | .ok (true, v) =>
      if v.asyncFailCounter ≠ 0 then (.ok { v.result with noOfBytes := 0 }, ⟨buf, rest, reqs⟩)
      else recvAsMany len rest buf reqs

def recvAsManyAsPossibleAsync (inb : Inbound n) : Except Stop Result × Inbound n :=
  recvAsMany b inb.buffer.size inb.events inb.buffer inb.requests

end Recv

inductive SendEvent where
  | sent (count : ℕ)
  | fail (errorCode : Errno)
  deriving DecidableEq

/-- What the loop of `sendRaw` has handed to the kernel, with the requests issued so far. -/
structure Outbound where
  wire : List Byte
  requests : List Request

/-- The loop of `sendRaw`. Every `send` is given the whole of `msg`. -/
def sendLoop (b : Build) (msg : List Byte) :
    List SendEvent → ℕ → Attempt → Outbound → Except Stop Result × Outbound
  | [], total, v, out =>
    if total < msg.length then
      (.ok { v.result with noOfBytes := addSize total msg.length },
        ⟨out.wire ++ msg, out.requests ++ [⟨0, msg.length⟩]⟩)
    else (.ok { v.result with noOfBytes := total }, out)
  | event :: rest, total, v, out =>
    if total < msg.length then
      let reqs := out.requests ++ [⟨0, msg.length⟩]
      match event with
      | .sent count =>
        sendLoop b msg rest (addSize total (min count msg.length)) v ⟨out.wire ++ msg.take count, reqs⟩
      | .fail errorCode =>
        match handleError b errorCode v with
        | .error stop => (.error stop, ⟨out.wire, reqs⟩)
        | .ok (false, v) => (.ok { v.result with noOfBytes := total }, ⟨out.wire, reqs⟩)
        | .ok (true, v) =>
          if 5 ≤ v.majorFailCount then
            (.ok { v.result with noOfBytes := total, socketClosed := true }, ⟨out.wire, reqs⟩)
          else sendLoop b msg rest total v ⟨out.wire, reqs⟩
    else (.ok { v.result with noOfBytes := total }, out)

/-- What `sendRaw` returns, and all that it handed to the kernel. -/
structure Sent where
  result : Result
  wire : List Byte
  deriving DecidableEq

def sendRaw (b : Build) (msg : List Byte) (events : List SendEvent) : Except Stop Sent :=
  let (result, out) := sendLoop b msg events 0 {} ⟨[], []⟩
  result.map (⟨·, out.wire⟩)

end PollServer
