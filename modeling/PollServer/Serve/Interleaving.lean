import PollServer.Model.Server
import PollServer.Serve.Closing

/-! `Add` and `CloseSocketConnections` section by section, in any order: the accepting
thread adds one client after another, the polling thread closes one set after another. A
run's events are the weights that `decPriority` was called with in vain. -/

namespace PollServer

open Lib

/-- Where the accepting thread stands in `Add`. -/
inductive Adding where
  | idle
  | inserted (clientInfo : ClientInfo)
  | counted (clientInfo : ClientInfo)

/-- `closing` is the set that is yet to be removed from the timestamps. -/
structure Racing where
  protocol : ServerLearnProtocol
  balancer : Priority
  adding : Adding
  closing : Option (List ℤ)

namespace Racing

def start (timeout : ℤ) (balancerIndex maxCount : ℕ) : Racing :=
  ⟨.make timeout balancerIndex, .make maxCount, .idle, none⟩

def load (r : Racing) : ℕ := r.balancer.load r.protocol.balancerIndex

def weight (r : Racing) : ℕ := r.protocol.clientInfos.weight

def insert (c : ClientInfo) (r : Racing) : Racing :=
  { r with
    protocol := { r.protocol with clientInfos := r.protocol.clientInfos.insert c }
    adding := .inserted c }

def incPriority (c : ClientInfo) (r : Racing) : Racing :=
  { r with
    balancer := r.balancer.incPriority r.protocol.balancerIndex c.deadlineMaxCount
    adding := .counted c }

def updateSingle (c : ClientInfo) (time : ℤ) (r : Racing) : Racing :=
  { r with
    protocol := { r.protocol with
      mostRecentTimestamps := r.protocol.mostRecentTimestamps.updateSingle c.socket time }
    adding := .idle }

def close (sockets : List ℤ) (r : Racing) : Racing :=
  let (closed, clientInfos, balancer) :=
    ClientInfos.close sockets r.protocol.clientInfos r.balancer r.protocol.balancerIndex
  { r with
    protocol := { r.protocol with clientInfos := clientInfos }
    balancer := balancer
    closing := if closed.isEmpty then none else some closed }

def remove (sockets : List ℤ) (r : Racing) : Racing :=
  { r with
    protocol := { r.protocol with
      mostRecentTimestamps := r.protocol.mostRecentTimestamps.remove sockets }
    closing := none }

/-- The sections, each under its lock. The file descriptor of a new connection is no
client's. -/
inductive Step : Racing → List ℕ → Racing → Prop where
  | insert {r : Racing} (c : ClientInfo) (ha : r.adding = .idle)
      (hc : c.socket ∉ r.protocol.clients) : Step r [] (r.insert c)
  | incPriority {r : Racing} (c : ClientInfo) (ha : r.adding = .inserted c) :
      Step r [] (r.incPriority c)
  | updateSingle {r : Racing} (c : ClientInfo) (time : ℤ) (ha : r.adding = .counted c) :
      Step r [] (r.updateSingle c time)
  | close {r : Racing} (sockets : List ℤ) (hc : r.closing = none) :
      Step r (ClientInfos.drops sockets r.protocol.clientInfos r.balancer r.protocol.balancerIndex)
        (r.close sockets)
  | remove {r : Racing} (sockets : List ℤ) (hc : r.closing = some sockets) :
      Step r [] (r.remove sockets)

/-- Every operation that was started has finished. -/
def Settled (r : Racing) : Prop := r.adding = .idle ∧ r.closing = none

/-- Without interruption, the sections of `Add` are `Add`. -/
theorem run_add (r : Racing) (c : ClientInfo) (time : ℤ) (ha : r.adding = .idle)
    (hc : c.socket ∉ r.protocol.clients) : Run Step r []
      { r with
        protocol := (r.protocol.add r.balancer c time).1
        balancer := (r.protocol.add r.balancer c time).2 } := by
  have h1 : Run Step r [] (r.insert c) := .next .start (.insert c ha hc)
  have h2 : Run Step r [] ((r.insert c).incPriority c) := .next h1 (.incPriority c rfl)
  have h3 : Run Step r [] (((r.insert c).incPriority c).updateSingle c time) :=
    .next h2 (.updateSingle c time rfl)
  obtain ⟨protocol, balancer, adding, closing⟩ := r
  subst ha
  exact h3

/-- The weight of a client that is there and not yet counted. -/
def pending (r : Racing) : ℕ :=
  match r.adding with
  | .inserted c => c.deadlineMaxCount
  | _ => 0

/-- Up to what the `size_t` can hold, the load is short of the weights only by the pending
one, and beyond them by what was dropped. -/
structure Balanced (drops : List ℕ) (r : Racing) : Prop where
  index : r.protocol.balancerIndex < r.balancer.sizes.length
  load_lt : r.load < 2 ^ 64
  even : (r.load + r.pending) % 2 ^ 64 = (r.weight + drops.sum) % 2 ^ 64

theorem balanced_start {balancerIndex maxCount : ℕ} (h : balancerIndex < maxCount) (timeout : ℤ) :
    Balanced [] (start timeout balancerIndex maxCount) := by
  refine ⟨by simpa [start, ServerLearnProtocol.make] using h, ?_, ?_⟩
  · simp [start, load]
  · simp [start, load, pending, weight, ClientInfos.weight, ServerLearnProtocol.make,
      ClientInfos.make]

theorem Balanced.step {drops ds : List ℕ} {r r' : Racing} (h : Balanced drops r)
    (hs : Step r ds r') : Balanced (drops ++ ds) r' := by
  obtain ⟨hindex, hlt, heven⟩ := h
  cases hs with
  | insert c ha hc =>
    have hweight : (r.insert c).weight = c.deadlineMaxCount + r.weight :=
      Keyed.total_insert _ hc _
    refine ⟨hindex, hlt, ?_⟩
    rw [List.append_nil, hweight]
    simp only [pending, ha] at heven
    change (r.load + c.deadlineMaxCount) % 2 ^ 64 = _
    omega
  | incPriority c ha =>
    have hload : (r.incPriority c).load = addSize r.load c.deadlineMaxCount := by
      rw [load, load]
      exact (Priority.load_incPriority hindex _ _).trans (if_pos rfl)
    refine ⟨by simpa [Racing.incPriority] using hindex, ?_, ?_⟩
    · rw [hload]
      exact Nat.mod_lt _ (by decide)
    · rw [List.append_nil, hload, addSize]
      simp only [pending, ha] at heven
      simp only [pending, Racing.incPriority]
      change _ = (r.weight + drops.sum) % 2 ^ 64
      omega
  | updateSingle c time ha =>
    simp only [pending, ha] at heven
    exact ⟨hindex, hlt, by rw [List.append_nil]; exact heven⟩
  | close sockets hc =>
    have hload := ClientInfos.close_load sockets r.protocol.clientInfos hindex
    have hle := ClientInfos.close_load_le sockets r.protocol.clientInfos hindex
    refine ⟨?_, hle.trans_lt hlt, ?_⟩
    · exact hindex.trans_eq (ClientInfos.close_length sockets _ _ _).symm
    · have hpending : (r.close sockets).pending = r.pending := rfl
      change (r.close sockets).load + r.weight = r.load + (r.close sockets).weight + _ at hload
      rw [hpending, List.sum_append]
      omega
  | remove sockets hc => exact ⟨hindex, hlt, by rw [List.append_nil]; exact heven⟩

theorem Run.balanced {timeout : ℤ} {balancerIndex maxCount : ℕ} (hi : balancerIndex < maxCount)
    {drops : List ℕ} {r : Racing}
    (hr : Run Step (start timeout balancerIndex maxCount) drops r) : Balanced drops r :=
  hr.invariant (balanced_start hi timeout) fun _ _ _ _ h hs => h.step hs

/-- **Adding against closing.** When every operation has finished, the load is the sum of
the weights exactly when the calls of `decPriority` made in vain amount to nothing in a
`size_t`, and the sum fits into one. -/
theorem add_close_settles {timeout : ℤ} {balancerIndex maxCount : ℕ}
    (hi : balancerIndex < maxCount) {drops : List ℕ} {r : Racing}
    (hr : Run Step (start timeout balancerIndex maxCount) drops r) (hs : r.Settled) :
    r.load = r.weight ↔ r.weight < 2 ^ 64 ∧ 2 ^ 64 ∣ drops.sum := by
  obtain ⟨-, hlt, heven⟩ := Run.balanced hi hr
  rw [pending, hs.1] at heven
  dsimp only at heven
  omega

/-- A client that is added, counted and closed. -/
theorem add_close_settles_counted :
    ((start 10 0 1).insert (.make 5 25 ⟨0, 0⟩) |>.incPriority (.make 5 25 ⟨0, 0⟩)
      |>.updateSingle (.make 5 25 ⟨0, 0⟩) 0 |>.close [5] |>.remove [5]).load = 0 := by
  have h1 := run_add (start 10 0 1) (.make 5 25 ⟨0, 0⟩) 0 rfl (by decide)
  have h2 := Run.next h1 (.close [5] rfl)
  have h3 := Run.next h2 (.remove [5] rfl)
  exact ((add_close_settles (by decide) h3 ⟨rfl, rfl⟩).mpr ⟨by decide, by decide⟩).trans (by decide)

/-- The client is closed before it is counted, and its weight stays. -/
theorem add_close_drifts :
    ¬∀ (timeout : ℤ) (balancerIndex maxCount : ℕ) (drops : List ℕ) (r : Racing),
      balancerIndex < maxCount → Run Step (start timeout balancerIndex maxCount) drops r →
        r.Settled → r.load = r.weight := by
  intro h
  let c := ClientInfo.make 5 25 ⟨0, 0⟩
  have h1 : Run Step (start 10 0 1) [] ((start 10 0 1).insert c) :=
    .next .start (.insert c rfl (by decide))
  have h2 := Run.next h1 (.close [5] rfl)
  have h3 := Run.next h2 (.remove [5] rfl)
  have h4 := Run.next h3 (.incPriority c rfl)
  have h5 := Run.next h4 (.updateSingle c 0 rfl)
  exact absurd (h 10 0 1 _ _ (by decide) h5 ⟨rfl, rfl⟩) (by decide)

end Racing

end PollServer
