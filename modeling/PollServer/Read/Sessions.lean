import PollServer.Model.ClientInfos

/-! What both reads of a client have in common: the few changes they make to the session.
A relation that each of these changes keeps holds over a whole read. -/

namespace PollServer

open Lib StopM ReadM NetworkPacket

/-- A relation that every change of the session but a count or a dispatch keeps. -/
structure Session.Idle (R : Session → Session → Prop) : Prop where
  refl : ∀ ses, R ses ses
  trans : ∀ ses ses' ses'', R ses ses' → R ses' ses'' → R ses ses''
  decoded : ∀ k ses, R ses (Session.decoded k ses)
  close : ∀ ses, R ses ses.close

/-- A relation that every change but a count keeps in a read of `socket`. -/
structure Session.Quiet (socket : ℤ) (R : Session → Session → Prop) : Prop
    extends Session.Idle R where
  dispatch : ∀ p ses, p.socket = socket → R ses (ses.dispatch socket p)

/-- A relation that every change keeps. -/
structure Session.Stepwise (socket : ℤ) (R : Session → Session → Prop) : Prop
    extends Session.Quiet socket R where
  count : ∀ ses, R ses ses.count

/-- `R` between the sessions of two states. -/
def OnSessions {n : ℕ} (R : Session → Session → Prop) (s s' : ReadState n) : Prop :=
  R s.session s'.session

theorem ofBuffer_socket {n : ℕ} {b : Build} {socket : ℤ} {buf : Buffer n} {v : PacketSize}
    {p : NetworkPacket} (h : ofBuffer b socket buf v = .ok p) : p.socket = socket := by
  simp only [ofBuffer, bind, Except.bind] at h
  split at h
  · cases h
  split at h
  · cases h
  split at h
  · split at h
    · cases h
    · cases h
      rfl
  · cases h
    rfl

namespace Session.Idle

variable {n : ℕ} {R : Session → Session → Prop}

theorem refl' (h : Idle R) (s : ReadState n) : OnSessions R s s := h.refl _

theorem trans' (h : Idle R) (s s' s'' : ReadState n) :
    OnSessions R s s' → OnSessions R s' s'' → OnSessions R s s'' := h.trans _ _ _

variable (b : Build) (h : Idle R)

include h

theorem onBuffer (f : Buffer n → Except Stop (Buffer n)) :
    Steps (OnSessions R) (ReadM.onBuffer f) := by
  intro s
  have hs : (ReadM.onBuffer f s).2.session = s.session := by
    unfold ReadM.onBuffer
    split <;> rfl
  rw [OnSessions, hs]
  exact h.refl _

theorem receive (f : Inbound n → Except Stop Result × Inbound n) :
    Steps (OnSessions R) (ReadM.receive f) := fun _ => h.refl _

theorem closeSocket : Steps (OnSessions R) (PollServer.closeSocket : ReadM n ClientPollResult) :=
  fun _ => h.close _

theorem checkPacketSize (packetSize : ℕ) :
    Steps (OnSessions R) (PollServer.checkPacketSize b packetSize : ReadM n Unit) := by
  refine .bind h.trans' (fun s => h.refl _) fun _ => ?_
  exact .ite (.stop h.refl' _) (.pure h.refl' _)

theorem refill (bytesToRead : ℕ) :
    Steps (OnSessions R) (PollServer.refill b bytesToRead : ReadM n (Option ℕ)) := by
  refine .ite ?_ (.pure h.refl' _)
  refine .bind h.trans' (h.onBuffer _) fun _ => ?_
  refine .bind h.trans' (h.receive _) fun _ => ?_
  refine .ite (.pure h.refl' _) ?_
  exact .bind h.trans' (h.onBuffer _) fun _ => .pure h.refl' _

theorem readExtra (packetSize bytesToRead : ℕ) :
    Steps (OnSessions R) (PollServer.readExtra b packetSize bytesToRead : ReadM n (Option ℕ)) := by
  refine .ite ?_ (.pure h.refl' _)
  refine .bind h.trans' (h.onBuffer _) fun _ => ?_
  refine .bind h.trans' (h.onBuffer _) fun _ => ?_
  refine .bind h.trans' (h.receive _) fun _ => ?_
  refine .ite (.pure h.refl' _) ?_
  exact .bind h.trans' (h.onBuffer _) fun _ => .pure h.refl' _

end Session.Idle

/-- What takes a packet has moved behind it when it acts on it. -/
theorem Session.Quiet.takePacket {n : ℕ} {socket : ℤ} {R : Session → Session → Prop}
    (h : Quiet socket R) (b : Build) (packetSize : ℕ) :
    Steps (OnSessions R) (PollServer.takePacket b socket packetSize : ReadM n Unit) := by
  intro s
  rcases hp : ofBuffer b socket s.inb.buffer (BitVec.ofNat 16 packetSize) with e | p
  · have hrun : fromBuffer (fun buf => ofBuffer b socket buf (BitVec.ofNat 16 packetSize)) s =
        (.error e, s) := by
      simp only [fromBuffer, ask, hp]
    rw [PollServer.takePacket, bind_error hrun]
    exact h.refl _
  · have hrun : fromBuffer (fun buf => ofBuffer b socket buf (BitVec.ofNat 16 packetSize)) s =
        (.ok p, s) := by
      simp only [fromBuffer, ask, hp]
    rw [PollServer.takePacket, bind_ok hrun]
    have hdispatch : Steps (OnSessions (n := n) R) (onSession (Session.dispatch socket p)) :=
      fun s => h.dispatch p _ (ofBuffer_socket hp)
    exact Steps.bind h.trans' (h.onBuffer _) (fun _ => hdispatch) s

namespace Session.Stepwise

variable {n : ℕ} {socket : ℤ} {R : Session → Session → Prop} (b : Build) (h : Stepwise socket R)

include h

theorem nextPacketSize : Steps (OnSessions R) (PollServer.nextPacketSize b : ReadM n ℕ) := by
  refine .bind h.trans' (fun s => h.count _) fun _ => ?_
  refine .bind h.trans' (.ask h.refl' _) fun size => ?_
  exact .bind h.trans' (fun s => h.decoded _ _) fun _ => .pure h.refl' _

theorem readSingleShot : Steps (OnSessions R) (PollServer.readSingleShot b socket : ReadM n _) := by
  refine .bind h.trans' (h.onBuffer _) fun _ => ?_
  refine .bind h.trans' (h.receive _) fun _ => ?_
  refine .ite h.closeSocket ?_
  refine .bind h.trans' (h.nextPacketSize b) fun packetSize => ?_
  refine .bind h.trans' (h.receive _) fun _ => ?_
  refine .ite h.closeSocket ?_
  refine .bind h.trans' (h.checkPacketSize b _) fun _ => ?_
  exact .bind h.trans' (h.takePacket b _) fun _ => .pure h.refl' _

theorem readFrame {loop : ℕ → ReadM n ClientPollResult}
    (hloop : ∀ k, Steps (OnSessions R) (loop k)) (bytesToRead : ℕ) :
    Steps (OnSessions R) (PollServer.readFrame b socket loop bytesToRead) := by
  refine .bind h.trans' (h.nextPacketSize b) fun packetSize => ?_
  refine .bind h.trans' (h.onBuffer _) fun _ => ?_
  refine .bind h.trans' (h.checkPacketSize b _) fun _ => ?_
  refine .bind h.trans' (h.readExtra b _ _) fun bytesToRead => ?_
  rcases bytesToRead with _ | bytesToRead
  · exact h.closeSocket
  · refine .bind h.trans' (h.takePacket b _) fun _ => ?_
    exact .ite (hloop _) (.pure h.refl' _)

theorem multiShotLoop (fuel : ℕ) : ∀ bytesToRead, Steps (OnSessions R)
    (PollServer.multiShotLoop b socket fuel bytesToRead : ReadM n ClientPollResult) := by
  induction fuel with
  | zero => exact fun _ => .stop h.refl' _
  | succ fuel ih =>
    intro bytesToRead
    refine .bind h.trans' (h.refill b _) fun bytesToRead => ?_
    rcases bytesToRead with _ | bytesToRead
    · exact h.closeSocket
    · exact h.readFrame b ih bytesToRead

/-- **Such a relation holds over both reads.** -/
theorem readForSingleSocket (shot : Shot) :
    Steps (OnSessions R) (PollServer.readForSingleSocket b shot socket : ReadM n _) := by
  cases shot
  · exact h.readSingleShot b
  · exact .bind h.trans' (h.onBuffer _) fun _ => h.multiShotLoop b _ _

end Session.Stepwise

end PollServer
