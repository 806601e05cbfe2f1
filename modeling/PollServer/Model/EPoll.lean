import PollServer.Model.ClientInfos

/-! `EPoll.hpp`: an epoll instance, as the interest list that the kernel keeps for it. -/

namespace PollServer

/-- The descriptors that are watched, each of them once. -/
structure EPoll where
  interest : List ℤ
  nodup : interest.Nodup

namespace EPoll

variable (e : EPoll)

def make : EPoll := ⟨[], List.nodup_nil⟩

/-- `EPOLL_CTL_ADD`. A descriptor that is watched already (`EEXIST`) is fine, and one that is
not open is not. -/
def add (isOpen : Bool) (socket : ℤ) : Bool × EPoll :=
  if isOpen then (true, ⟨e.interest.insert socket, e.nodup.insert⟩) else (false, e)

/-- What the kernel leaves of the list when descriptors are closed with `::close`. -/
def closed (sockets : List ℤ) : EPoll :=
  ⟨e.interest.filter (· ∉ sockets), e.nodup.filter _⟩

/-- What `Wait` may report into an array of `size` events. -/
structure Reports (size : ℕ) (events : List EpollEvent) : Prop where
  fits : events.length ≤ size
  once : (events.map EpollEvent.fd).Nodup
  watched : ∀ event ∈ events, event.fd ∈ e.interest

@[simp] theorem not_mem_make (fd : ℤ) : fd ∉ make.interest := List.not_mem_nil

theorem mem_add {isOpen : Bool} {socket fd : ℤ} :
    fd ∈ (e.add isOpen socket).2.interest ↔ fd ∈ e.interest ∨ (isOpen = true ∧ fd = socket) := by
  unfold add
  cases isOpen
  · simp
  · rw [if_pos rfl, List.mem_insert_iff]
    simp [or_comm]

theorem mem_closed {sockets : List ℤ} {fd : ℤ} :
    fd ∈ (e.closed sockets).interest ↔ fd ∈ e.interest ∧ fd ∉ sockets := by
  simp [closed]

end EPoll

end PollServer
