import PollServer.Model.Tcp

/-! `queue.hpp`, `Deadline.hpp` and `ClientInfo.hpp`: the ring buffer of recent times, the
rate limiter over it, and what the server keeps for each client. -/

namespace PollServer

structure Timespec where
  sec : ℤ
  nsec : ℤ
  deriving DecidableEq, Inhabited

/-- `operator>`, which holds of equal times too. -/
def Timespec.after (left right : Timespec) : Prop :=
  right.sec < left.sec ∨ (left.sec = right.sec ∧ right.nsec ≤ left.nsec)

instance (left right : Timespec) : Decidable (left.after right) :=
  inferInstanceAs (Decidable (_ ∨ _))

/-- `DifferenceInNanos`, as an exact integer. -/
def differenceInNanos (left right : Timespec) : ℤ :=
  (left.sec - right.sec) * 10 ^ 9 + (left.nsec - right.nsec)

/-- `front` and `rear` are `-1` while the queue is empty. -/
structure Queue (T : Type) where
  items : List T
  front : ℤ
  rear : ℤ
  maxCount : ℤ
  deriving DecidableEq

namespace Queue

variable {T : Type} [Inhabited T]

def make (size : ℕ) : Queue T := ⟨List.replicate size default, -1, -1, size⟩

def isFull (q : Queue T) : Bool :=
  (q.front == 0 && q.rear == q.maxCount - 1) || q.front == q.rear + 1

def first (q : Queue T) : T := q.items.getD q.front.toNat default

def last (q : Queue T) : T := q.items.getD q.rear.toNat default

def add (q : Queue T) (value : T) : Queue T :=
  let front := if q.isFull then (q.front + 1).tmod q.maxCount else q.front
  let front := if front = -1 then 0 else front
  let rear := (q.rear + 1).tmod q.maxCount
  { q with items := q.items.set rear.toNat value, front := front, rear := rear }

/-- The copy loop of `MaxCount` from the place `i` on. Its fuel are the places there are. -/
def copyFrom (q : Queue T) : ℕ → ℤ → List T
  | 0, _ => []
  | fuel + 1, i =>
    if i = q.rear then []
    else q.items.getD i.toNat default :: q.copyFrom fuel ((i + 1).tmod q.maxCount)

/-- `resize` of a vector. -/
def resize (items : List T) (size : ℕ) : List T :=
  items.take size ++ List.replicate (size - items.length) default

/-- `MaxCount` with a new one. -/
def setMaxCount (q : Queue T) (newMaxCount : ℤ) : Queue T :=
  if q.maxCount < newMaxCount then
    if q.rear < q.front then
      let temp := q.copyFrom q.items.length q.front
      ⟨temp ++ List.replicate (newMaxCount.toNat - temp.length) default, 0, q.maxCount, newMaxCount⟩
    else { q with items := resize q.items newMaxCount.toNat, maxCount := newMaxCount }
  else { q with maxCount := newMaxCount }

end Queue

def deadlineMaxCountDefault : ℕ := 25

structure Deadline where
  queue : Queue Timespec
  maxTime : ℤ
  maxHealthCheckTime : ℤ
  deriving DecidableEq

namespace Deadline

def make (maxCount : ℕ) : Deadline := ⟨Queue.make maxCount, 10 * 10 ^ 9, 30 * 10 ^ 9⟩

/-- `operator bool`: the queue is full of times that are not older than `maxTime`. -/
def breached (b : Build) (d : Deadline) (now : Timespec) : Except Stop Bool := do
  if d.queue.isFull then
    assert b (d.queue.front ≠ -1)
    assert b (now.after d.queue.first)
    return differenceInNanos now d.queue.first ≤ d.maxTime
  else return false

def healthCheckNeeded (b : Build) (d : Deadline) (now : Timespec) : Except Stop Bool := do
  if d.queue.rear ≠ -1 then
    assert b (d.queue.rear ≠ -1)
    assert b (now.after d.queue.last)
    return d.maxHealthCheckTime < differenceInNanos now d.queue.last
  else return false

def increment (d : Deadline) (now : Timespec) : Deadline := { d with queue := d.queue.add now }

def maxCount (d : Deadline) : ℕ := d.queue.maxCount.toNat

@[simp] theorem maxCount_increment (d : Deadline) (now : Timespec) :
    (d.increment now).maxCount = d.maxCount := rfl

end Deadline

structure ClientInfo where
  socket : ℤ
  clientId : List Byte
  deadline : Deadline
  terminateOnNextCycle : Bool
  terminateNow : Bool
  deriving DecidableEq

namespace ClientInfo

def make (socket : ℤ) (maxCount : ℕ) (now : Timespec) : ClientInfo :=
  ⟨socket, [], (Deadline.make maxCount).increment now, false, false⟩

/-- The flag to return, and the client it leaves. -/
def terminateThisCycleOrNext (c : ClientInfo) : Bool × ClientInfo :=
  if c.terminateOnNextCycle || c.terminateNow then (true, c)
  else (false, { c with terminateOnNextCycle := true })

def deadlineBreach (b : Build) (c : ClientInfo) (now : Timespec) : Except Stop Bool :=
  c.deadline.breached b now

def deadlineMaxCount (c : ClientInfo) : ℕ := c.deadline.maxCount

end ClientInfo

structure ClientPollResult where
  terminate : Bool := false
  read : Bool := false
  write : Bool := false
  deriving DecidableEq

end PollServer
