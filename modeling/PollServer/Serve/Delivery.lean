import PollServer.Serve.Load

/-! Which connection a written packet belongs to. File descriptors are numbers the kernel
gives out again once they are closed, so a connection has an identity of its own here, and
each packet that waits has a record of where it came from. The records follow the queues;
no code reads them. -/

namespace PollServer

open Lib NetworkPacket ClientInfos

/-- A callback that answers the client that it was asked by. -/
structure Callback where
  run : NetworkPacket → ClientInfo → NetworkPacket
  socket_run : ∀ packet clientInfo, (run packet clientInfo).socket = packet.socket

/-- What a packet is: one that was received, the callback's answer to one, the reply to one,
or a heartbeat. -/
inductive Source where
  | request (packet : NetworkPacket)
  | response (packet : NetworkPacket)
  | reply (packet : NetworkPacket)
  | heartBeat
  deriving DecidableEq

/-- `conn` owned the packet's socket when it was queued. -/
structure Origin where
  conn : Option ℕ
  source : Source
  deriving DecidableEq

/-- A packet that was written, with the owner of its socket at that time. -/
structure Delivery where
  packet : NetworkPacket
  origin : Origin
  owner : Option ℕ
  deriving DecidableEq

/-- The packet was queued on behalf of the connection `c`. -/
def Origin.Rightful (callback : Callback) (c : ℕ) (packet : NetworkPacket) (o : Origin) : Prop :=
  o.conn = some c ∧
    match o.source with
    | .request _ => False
    | .response p => p.IsSend ∧ ∃ clientInfo, packet = callback.run p clientInfo
    | .reply p => p.answer = some packet
    | .heartBeat => packet = heartBeatTo packet.socket

def Delivery.Rightful (callback : Callback) (d : Delivery) : Prop :=
  ∀ c, d.owner = some c → d.origin.Rightful callback c d.packet

/-- The record of a packet that the callback has answered. -/
def Origin.executed (o : Origin) : Origin :=
  match o.source with
  | .request p => { o with source := .response p }
  | _ => o

/-- Where a polling thread stands in the loop of `PollAndRead`. -/
inductive Phase where
  | poll
  | close (socketsToTerminate : List ℤ)
  | execute
  | write
  deriving DecidableEq

structure Net (k : ℕ) where
  server : Server k
  owner : ℤ → Option ℕ
  connections : ℕ
  phase : Fin k → Phase
  toRead : Fin k → List Origin
  toWrite : Fin k → List Origin

/-- The steps: the accepting thread adds a connection of the descriptor `fd`, a polling
thread goes on in its loop, the health check looks at a protocol. -/
inductive NetOp (k n : ℕ) where
  | accept (i : Fin k) (fd : ℤ) (weight : ℕ)
  | pollRead (i : Fin k) (buffer : Buffer n) (events : List EpollEvent)
  | close (i : Fin k)
  | execute (i : Fin k)
  | write (i : Fin k) (sends : List (List SendEvent))
  | execHealthCheck (i : Fin k)

namespace Net

variable {k n : ℕ}

def start (timeout : ℤ) (balancerIndex : Fin k → ℕ) (maxCount : ℕ) : Net k :=
  ⟨.start timeout balancerIndex maxCount, fun _ => none, 0, fun _ => .poll, fun _ => [], fun _ => []⟩

variable (w : Net k) (i : Fin k)

abbrev queues : ClientInfos := (w.server.protocols i).clientInfos

def accept (fd : ℤ) (weight : ℕ) (time : ℤ) : Net k :=
  { w with
    server := w.server.add i (.make fd weight ⟨time, 0⟩) time
    owner := Function.update w.owner fd (some w.connections)
    connections := w.connections + 1 }

def requestOf (packet : NetworkPacket) : Origin := ⟨w.owner packet.socket, .request packet⟩

def replyTo (packet : NetworkPacket) : Option Origin :=
  packet.answer.map fun _ => ⟨w.owner packet.socket, .reply packet⟩

def polled (p : ServerLearnProtocol) (v : Polled n) : Net k :=
  { w with
    server := w.server.set i p
    phase := Function.update w.phase i
      (if v.socketsToTerminate.isEmpty then .execute else .close v.socketsToTerminate)
    toRead := Function.update w.toRead i
      (w.toRead i ++ (v.dispatched.filter (IsSend ·)).map w.requestOf)
    toWrite := Function.update w.toWrite i (w.toWrite i ++ v.dispatched.filterMap w.replyTo) }

/-- The kernel may give out again what has been closed. -/
def close (sockets : List ℤ) : Net k :=
  let r := (w.server.protocols i).closeSocketConnections w.server.balancer sockets
  { w with
    server := w.server.setBoth i r.2.2
    owner := fun fd => if fd ∈ r.1 then none else w.owner fd
    phase := Function.update w.phase i .execute }

/-- The records of the packets that `execute` hands on. -/
def executed (cs : ClientInfos) (origins : List Origin) : List Origin :=
  if cs.clientInfos.entries.isEmpty then []
  else List.zipWith (fun packet o => if packet.socket ∈ cs.clientInfos then o.executed else o)
    cs.packetsToRead origins

def execute (callback : Callback) : Net k :=
  { w with
    server := w.server.set i ((w.server.protocols i).execute callback.run)
    phase := Function.update w.phase i .write
    toRead := Function.update w.toRead i []
    toWrite := Function.update w.toWrite i (w.toWrite i ++ executed (w.queues i) (w.toRead i)) }

def deliveries (b : Build) (sends : List (List SendEvent)) : List Delivery :=
  List.zipWith (fun packet o => ⟨packet, o, w.owner packet.socket⟩)
    ((w.server.protocols i).write b sends).1 (w.toWrite i)

def write (b : Build) (sends : List (List SendEvent)) : Net k :=
  { w with
    server := w.server.set i ((w.server.protocols i).write b sends).2.2
    phase := Function.update w.phase i .poll
    toWrite := Function.update w.toWrite i [] }

def check (time : ℤ) : Net k :=
  { w with
    server := w.server.set i ((w.server.protocols i).execHealthCheck [] time).2
    toWrite := Function.update w.toWrite i
      (w.toWrite i ++ ((w.server.protocols i).warned time).map fun fd => ⟨w.owner fd, .heartBeat⟩) }

/-- An operation where the threads allow it, with the packets it writes. The multi-shot
read that does not return ends the run. -/
def exec (b : Build) (callback : Callback) (time : ℤ) : NetOp k n → Option (List Delivery × Net k)
  | .accept i fd weight => if w.owner fd = none then some ([], w.accept i fd weight time) else none
  | .pollRead i buffer events =>
    if w.phase i = .poll ∧ (w.queues i).clientInfos.entries.isEmpty = false then
      match (w.server.protocols i).pollRead b .multi buffer events time with
      | .error _ => none
      | .ok (p, v) => some ([], w.polled i p v)
    else none
  | .close i =>
    match w.phase i with
    | .close sockets => some ([], w.close i sockets)
    | _ => none
  | .execute i => if w.phase i = .execute then some ([], w.execute i callback) else none
  | .write i sends =>
    if w.phase i = .write then some (w.deliveries i b sends, w.write i b sends) else none
  | .execHealthCheck i => some ([], w.check i time)

/-- No packet that waits in any protocol names `fd`. -/
def Unnamed (fd : ℤ) : Prop :=
  ∀ i, ∀ packet ∈ (w.queues i).packetsToRead ++ (w.queues i).packetsToWrite, packet.socket ≠ fd

/-- A connection is accepted on a descriptor that no packet names. -/
def Clean : NetOp k n → Prop
  | .accept _ fd _ => w.Unnamed fd
  | _ => True

end Net

section Forall₂

variable {α β : Type} {R S : α → β → Prop} {l : List α} {l' : List β}

theorem forall₂_mono (h : List.Forall₂ R l l') (hRS : ∀ a ∈ l, ∀ b, R a b → S a b) :
    List.Forall₂ S l l' := by
  induction h with
  | nil => exact .nil
  | cons hab _ ih =>
    exact .cons (hRS _ List.mem_cons_self _ hab)
      (ih fun a ha => hRS a (List.mem_cons_of_mem _ ha))

theorem forall₂_map_self {f : α → β} (h : ∀ a ∈ l, R a (f a)) : List.Forall₂ R l (l.map f) := by
  rw [List.forall₂_map_right_iff]
  exact List.forall₂_same.mpr h

end Forall₂

namespace Net

variable {k n : ℕ}

/-- A packet that waits to be executed at protocol `i`: if its socket is open, it was
received on the connection that has it, and the client is there to be answered. -/
def Waits (w : Net k) (i : Fin k) (packet : NetworkPacket) (o : Origin) : Prop :=
  ∀ c, w.owner packet.socket = some c →
    packet.socket ∈ (w.queues i).clientInfos ∧ packet.IsSend ∧ o = ⟨some c, .request packet⟩

/-- A packet that waits to be written is rightful if its socket is open. -/
def Ready (callback : Callback) (w : Net k) (packet : NetworkPacket) (o : Origin) : Prop :=
  ∀ c, w.owner packet.socket = some c → o.Rightful callback c packet

/-- **The records tell the truth about every packet that waits.** -/
structure Truthful (callback : Callback) (w : Net k) : Prop where
  reads : ∀ i, List.Forall₂ (w.Waits i) (w.queues i).packetsToRead (w.toRead i)
  writes : ∀ i, List.Forall₂ (w.Ready callback) (w.queues i).packetsToWrite (w.toWrite i)

theorem truthful_start (callback : Callback) (timeout : ℤ) (balancerIndex : Fin k → ℕ)
    (maxCount : ℕ) : (start timeout balancerIndex maxCount).Truthful callback :=
  ⟨fun _ => .nil, fun _ => .nil⟩

section Step

variable {callback : Callback} {w w' : Net k} {i : Fin k} {r : ServerLearnProtocol × Priority}

theorem queues_same (hs : w'.server = w.server.setBoth i r) : w'.queues i = r.1.clientInfos := by
  rw [queues, hs, Server.setBoth_same]

theorem queues_other (hs : w'.server = w.server.setBoth i r) {j : Fin k} (hj : j ≠ i) :
    w'.queues j = w.queues j := by
  rw [queues, hs, Server.setBoth_other _ _ hj]

/-- No packet that waits at `i` has got an owner. -/
def Owned (w w' : Net k) (i : Fin k) : Prop :=
  ∀ packet ∈ (w.queues i).packetsToRead ++ (w.queues i).packetsToWrite, ∀ c,
    w'.owner packet.socket = some c → w.owner packet.socket = some c

theorem Truthful.reads_kept (h : w.Truthful callback) (ho : Owned w w' i)
    (hc : ∀ socket c, w'.owner socket = some c → socket ∈ (w.queues i).clientInfos →
      socket ∈ (w'.queues i).clientInfos) :
    List.Forall₂ (w'.Waits i) (w.queues i).packetsToRead (w.toRead i) := by
  apply forall₂_mono (h.reads i)
  intro packet hp o hw c hown
  obtain ⟨hmem, hrest⟩ := hw c (ho packet (List.mem_append_left _ hp) c hown)
  exact ⟨hc _ c hown hmem, hrest⟩

theorem Truthful.writes_kept (h : w.Truthful callback) (ho : Owned w w' i) :
    List.Forall₂ (w'.Ready callback) (w.queues i).packetsToWrite (w.toWrite i) :=
  forall₂_mono (h.writes i) fun packet hp _ hw c hown =>
    hw c (ho packet (List.mem_append_right _ hp) c hown)

theorem Truthful.step (h : w.Truthful callback) (hs : w'.server = w.server.setBoth i r)
    (ho : ∀ j, Owned w w' j)
    (hr : ∀ j, j ≠ i → w'.toRead j = w.toRead j ∧ w'.toWrite j = w.toWrite j)
    (hreads : List.Forall₂ (w'.Waits i) r.1.clientInfos.packetsToRead (w'.toRead i))
    (hwrites : List.Forall₂ (w'.Ready callback) r.1.clientInfos.packetsToWrite (w'.toWrite i)) :
    w'.Truthful callback := by
  refine ⟨fun j => ?_, fun j => ?_⟩
  · by_cases hj : j = i
    · subst hj
      rw [queues_same hs]
      exact hreads
    · rw [(hr j hj).1, queues_other hs hj]
      exact h.reads_kept (ho j) fun _ _ _ hmem => by rwa [queues_other hs hj]
  · by_cases hj : j = i
    · subst hj
      rw [queues_same hs]
      exact hwrites
    · rw [(hr j hj).2, queues_other hs hj]
      exact h.writes_kept (ho j)

theorem Truthful.accept (h : w.Truthful callback) {fd : ℤ} (hf : w.Unnamed fd) (weight : ℕ)
    (time : ℤ) : (w.accept i fd weight time).Truthful callback := by
  have ho : ∀ j, Owned w (w.accept i fd weight time) j := fun j packet hp c hown =>
    (Function.update_of_ne (hf j packet hp) _ _).symm.trans hown
  refine h.step (i := i) (r := (w.server.protocols i).add w.server.balancer _ time) rfl ho
    (fun _ _ => ⟨rfl, rfl⟩) (h.reads_kept (ho i) fun socket _ _ hmem => ?_) (h.writes_kept (ho i))
  have hq : (w.accept i fd weight time).queues i =
      ((w.server.protocols i).add w.server.balancer _ time).1.clientInfos := queues_same rfl
  rw [hq]
  exact (Keyed.mem_insert _).mpr (Or.inr hmem)

theorem answer_socket {p q : NetworkPacket} (h : p.answer = some q) : q.socket = p.socket := by
  unfold answer at h
  split_ifs at h
  · cases h
    rfl
  · cases h
    rfl

theorem ready_replies (w : Net k) (ps : List NetworkPacket) :
    List.Forall₂ (w.Ready callback) (ps.filterMap answer) (ps.filterMap w.replyTo) := by
  induction ps with
  | nil => exact .nil
  | cons p ps ih =>
    cases h : p.answer with
    | none => simpa [replyTo, h] using ih
    | some q =>
      have hq : w.Ready callback q ⟨w.owner p.socket, .reply p⟩ := fun c hown =>
        ⟨by rw [← answer_socket h, hown], h⟩
      simpa [replyTo, h] using ⟨hq, ih⟩

theorem Truthful.polled (h : w.Truthful callback) {n : ℕ} {time : ℤ} {p : ServerLearnProtocol}
    {v : Polled n} (hp : (w.server.protocols i).Received time p v) :
    (w.polled i p v).Truthful callback := by
  have ho : ∀ j, Owned w (w.polled i p v) j := fun _ _ _ _ hown => hown
  have hmem : ∀ socket, socket ∈ (w.queues i).clientInfos →
      socket ∈ ((w.polled i p v).queues i).clientInfos := by
    intro socket hs
    rw [queues_same (w := w) (r := (p, w.server.balancer)) rfl, Keyed.mem_def]
    change _ ∈ p.clients.keys
    rwa [hp.clients.keys fun _ _ ha => ha.socket]
  refine h.step (r := (p, w.server.balancer)) rfl ho (fun j hj => ⟨?_, ?_⟩) ?_ ?_
  · exact Function.update_of_ne hj _ _
  · exact Function.update_of_ne hj _ _
  · dsimp only [Net.polled]
    rw [Function.update_self, hp.packetsToRead]
    refine List.rel_append (h.reads_kept (ho i) fun socket _ _ hs => hmem socket hs)
      (forall₂_map_self fun q hq c hown => ?_)
    obtain ⟨hq, hsend⟩ := List.mem_filter.mp hq
    exact ⟨hmem _ (hp.known q hq), of_decide_eq_true hsend, by rw [requestOf, ← hown]; rfl⟩
  · dsimp only [Net.polled]
    rw [Function.update_self, hp.packetsToWrite]
    exact List.rel_append (h.writes_kept (ho i)) (ready_replies _ _)

/-- A socket that is still open was not in the set, or no client of this protocol. -/
theorem Truthful.close (h : w.Truthful callback) (sockets : List ℤ) :
    (w.close i sockets).Truthful callback := by
  have hclosed : ∀ socket c, (w.close i sockets).owner socket = some c →
      w.owner socket = some c ∧ (socket ∈ (w.queues i).clientInfos → socket ∉ sockets) := by
    intro socket c hown
    simp only [Net.close, closeSocketConnections_closed, mem_closed] at hown
    split_ifs at hown with hin
    exact ⟨hown, fun hmem hs => hin ⟨hs, hmem⟩⟩
  have ho : ∀ j, Owned w (w.close i sockets) j := fun _ _ _ c hown => (hclosed _ c hown).1
  have hqueues := closeSocketConnections_clientInfos (w.server.protocols i) w.server.balancer sockets
  refine h.step (i := i) rfl ho (fun _ _ => ⟨rfl, rfl⟩) ?_ ?_
  · rw [hqueues]
    apply h.reads_kept (ho i)
    intro socket c hown hmem
    rw [queues_same (w := w) (i := i) rfl, hqueues]
    exact (Keyed.mem_eraseAll _).mpr ⟨hmem, (hclosed socket c hown).2 hmem⟩
  · rw [hqueues]
    exact h.writes_kept (ho i)

theorem ready_executed (w : Net k) {cs : ClientInfos} (callback : Callback)
    {packets : List NetworkPacket} {origins : List Origin}
    (h : List.Forall₂ (fun packet o => ∀ c, w.owner packet.socket = some c →
      packet.socket ∈ cs.clientInfos ∧ packet.IsSend ∧ o = ⟨some c, .request packet⟩)
      packets origins) :
    List.Forall₂ (w.Ready callback) (packets.map (cs.respond callback.run))
      (List.zipWith (fun packet o => if packet.socket ∈ cs.clientInfos then o.executed else o)
        packets origins) := by
  induction h with
  | nil => exact .nil
  | @cons packet o packets origins hw _ ih =>
    rw [List.map_cons, List.zipWith_cons_cons]
    refine .cons (fun c hown => ?_) ih
    have hsocket : (cs.respond callback.run packet).socket = packet.socket := by
      unfold respond
      split
      · exact callback.socket_run _ _
      · rfl
    rw [hsocket] at hown
    obtain ⟨hmem, hsend, rfl⟩ := hw c hown
    obtain ⟨info, hinfo⟩ := (Keyed.mem_iff_find _).mp hmem
    rw [if_pos hmem]
    exact ⟨rfl, hsend, info, by simp only [respond, hinfo]⟩

theorem Truthful.execute (h : w.Truthful callback) : (w.execute i callback).Truthful callback := by
  have ho : ∀ j, Owned w (w.execute i callback) j := fun _ _ _ _ hown => hown
  refine h.step (r := ((w.server.protocols i).execute callback.run, w.server.balancer)) rfl ho
    (fun j hj => ⟨Function.update_of_ne hj _ _, Function.update_of_ne hj _ _⟩) ?_ ?_
  · have hempty : ((w.queues i).execute callback.run).packetsToRead = [] := by
      unfold ClientInfos.execute
      split_ifs with he
      · simpa using he
      · rfl
      · rfl
    dsimp only [Net.execute, ServerLearnProtocol.execute]
    rw [Function.update_self, hempty]
    exact .nil
  · have hreads := h.reads i
    have hwrites := h.writes_kept (ho i)
    dsimp only [Net.execute, ServerLearnProtocol.execute]
    rw [Function.update_self]
    unfold ClientInfos.execute executed
    split_ifs with hr hc hc
    · rw [List.append_nil]
      exact hwrites
    · have hnil : (w.queues i).packetsToRead = [] := by simpa using hr
      rw [hnil, List.zipWith_nil_left, List.append_nil]
      exact hwrites
    · rw [List.append_nil]
      exact hwrites
    · exact List.rel_append hwrites (ready_executed (w.execute i callback) callback hreads)

theorem Truthful.write (h : w.Truthful callback) (b : Build) (sends : List (List SendEvent)) :
    (w.write i b sends).Truthful callback := by
  have ho : ∀ j, Owned w (w.write i b sends) j := fun _ _ _ _ hown => hown
  refine h.step (r := (((w.server.protocols i).write b sends).2.2, w.server.balancer)) rfl ho
    (fun j hj => ⟨rfl, Function.update_of_ne hj _ _⟩) (h.reads_kept (ho i) ?_) ?_
  · intro socket _ _ hmem
    rw [queues_same (w := w) (i := i)
      (r := (((w.server.protocols i).write b sends).2.2, w.server.balancer)) rfl]
    exact hmem
  · dsimp only [Net.write]
    rw [Function.update_self]
    exact .nil

theorem Truthful.check (h : w.Truthful callback) (time : ℤ) : (w.check i time).Truthful callback := by
  have ho : ∀ j, Owned w (w.check i time) j := fun _ _ _ _ hown => hown
  have hspec := (w.server.protocols i).execHealthCheck_spec [] time
  refine h.step (r := (((w.server.protocols i).execHealthCheck [] time).2, w.server.balancer)) rfl ho
    (fun j hj => ⟨rfl, Function.update_of_ne hj _ _⟩) ?_ ?_
  · dsimp only
    rw [hspec.packetsToRead]
    apply h.reads_kept (ho i)
    intro socket _ _ hmem
    rw [queues_same (w := w) (i := i)
      (r := (((w.server.protocols i).execHealthCheck [] time).2, w.server.balancer)) rfl, Keyed.mem_def]
    change _ ∈ ((w.server.protocols i).execHealthCheck [] time).2.clients.keys
    rwa [hspec.clients.keys fun _ _ ha => ha.socket]
  · dsimp only [Net.check]
    rw [Function.update_self, hspec.packetsToWrite]
    apply List.rel_append (h.writes_kept (ho i))
    rw [List.forall₂_map_left_iff, List.forall₂_map_right_iff]
    exact List.forall₂_same.mpr fun fd _ c hown => ⟨hown, rfl⟩

theorem ready_written {packets : List NetworkPacket} {origins : List Origin}
    (h : List.Forall₂ (w.Ready callback) packets origins) (b : Build)
    (sends : List (List SendEvent)) :
    ∀ d ∈ List.zipWith (fun packet o => (⟨packet, o, w.owner packet.socket⟩ : Delivery))
      (writeLoop b packets sends).1 origins, d.Rightful callback := by
  induction h generalizing sends with
  | nil => simp [writeLoop]
  | @cons packet o packets origins hready _ ih =>
    simp only [writeLoop]
    have hone : ∀ d ∈ List.zipWith (fun packet o => (⟨packet, o, w.owner packet.socket⟩ : Delivery))
        [packet] (o :: origins), d.Rightful callback := by
      rw [List.zipWith_cons_cons, List.zipWith_nil_left]
      exact List.forall_mem_singleton.mpr hready
    split
    · exact hone
    · split_ifs
      · exact hone
      · intro d hd
        rcases List.mem_cons.mp hd with rfl | hd
        · exact hready
        · exact ih _ d hd

end Step

section Runs

variable (b : Build) (callback : Callback)

/-- The steps that `Allowed` lets happen. -/
def Step (n : ℕ) (Allowed : Net k → NetOp k n → Prop) (w : Net k) (ds : List Delivery) (w' : Net k) :
    Prop :=
  ∃ (time : ℤ) (op : NetOp k n), Allowed w op ∧ w.exec b callback time op = some (ds, w')

theorem Truthful.exec {w w' : Net k} {time : ℤ} {op : NetOp k n} {ds : List Delivery}
    (h : w.Truthful callback) (hc : w.Clean op) (he : w.exec b callback time op = some (ds, w')) :
    w'.Truthful callback ∧ ∀ d ∈ ds, d.Rightful callback := by
  cases op with
  | accept i fd weight =>
    simp only [Net.exec] at he
    split_ifs at he
    cases he
    exact ⟨h.accept hc weight time, by simp⟩
  | pollRead i buffer events =>
    simp only [Net.exec] at he
    split_ifs at he
    split at he
    · cases he
    · rename_i p v hread
      cases he
      exact ⟨h.polled (ServerLearnProtocol.pollRead_spec _ hread), by simp⟩
  | close i =>
    simp only [Net.exec] at he
    split at he
    · cases he
      exact ⟨h.close _, by simp⟩
    · cases he
  | execute i =>
    simp only [Net.exec] at he
    split_ifs at he
    cases he
    exact ⟨h.execute, by simp⟩
  | write i sends =>
    simp only [Net.exec] at he
    split_ifs at he
    cases he
    exact ⟨h.write b sends, ready_written (h.writes i) b sends⟩
  | execHealthCheck i =>
    cases he
    exact ⟨h.check time, by simp⟩

/-- **No cross-connection delivery**, in a run where every connection is accepted on a
descriptor that no waiting packet names: whatever is written to an open socket was queued
on behalf of the connection that has it. -/
theorem deliveries_rightful {timeout : ℤ} {balancerIndex : Fin k → ℕ} {maxCount : ℕ}
    {ds : List Delivery} {w : Net k}
    (hr : Run (Step b callback n Net.Clean) (start timeout balancerIndex maxCount) ds w) :
    ∀ d ∈ ds, d.Rightful callback := by
  have hinv := hr.invariant (I := fun ds w => w.Truthful callback ∧ ∀ d ∈ ds, d.Rightful callback)
    ⟨truthful_start callback timeout balancerIndex maxCount, by simp⟩ ?_
  · exact hinv.2
  · rintro ds es w w' ⟨hw, hds⟩ ⟨time, op, hclean, he⟩
    obtain ⟨hw', hes⟩ := hw.exec b callback hclean he
    exact ⟨hw', fun d hd => (List.mem_append.mp hd).elim (hds d) (hes d)⟩

/-- The operations one after another, at the time 0. -/
def execAll (b : Build) (callback : Callback) :
    List (NetOp k n) → Net k → Option (List Delivery × Net k)
  | [], w => some ([], w)
  | op :: ops, w => do
    let (ds, w) ← w.exec b callback 0 op
    let (es, w) ← execAll b callback ops w
    return (ds ++ es, w)

theorem run_execAll {n : ℕ} {Allowed : Net k → NetOp k n → Prop} {ops : List (NetOp k n)}
    (hops : ∀ op ∈ ops, ∀ w, Allowed w op) {init w w' : Net k} {ds es : List Delivery}
    (hr : Run (Step b callback n Allowed) init ds w)
    (h : execAll b callback ops w = some (es, w')) :
    Run (Step b callback n Allowed) init (ds ++ es) w' := by
  induction ops generalizing w ds es with
  | nil =>
    cases h
    rwa [List.append_nil]
  | cons op ops ih =>
    rw [List.forall_mem_cons] at hops
    simp only [execAll, Option.bind_eq_bind, Option.bind_eq_some_iff] at h
    obtain ⟨⟨ds1, w1⟩, h1, ⟨ds2, w2⟩, h2, h3⟩ := h
    cases h3
    rw [← List.append_assoc]
    exact ih hops.2 (.next hr ⟨0, op, hops.1 w, h1⟩) h2

end Runs

/-- `pollCallback` answers the client that it was asked by. -/
def sampleCallback : Callback := ⟨pollCallback, fun _ _ => rfl⟩

/-- A peer sends a packet and half a length field, and goes. -/
def sampleRead : EpollEvent :=
  { fd := 5, readable := true, recv := [.arrive (0 :: 4 :: Commands.send ++ [0])] }

/-- A packet is answered to the connection that sent it. -/
theorem deliveries_rightful_answer :
    Delivery.Rightful sampleCallback ⟨⟨5, Commands.send, Commands.ascii " was received from ".toList⟩,
      ⟨some 0, .response ⟨5, Commands.send, []⟩⟩, some 0⟩ := by
  let w0 : Net 1 := start 10 (fun i => (i : ℕ)) 1
  let ops : List (NetOp 1 106) := [.pollRead 0 sampleBuffer
    [{ sampleRead with recv := [.arrive (0 :: 4 :: Commands.send)] }], .execute 0, .write 0 []]
  have h1 : Run (Step ⟨true, .little⟩ sampleCallback 106 Net.Clean) w0 [] (w0.accept 0 5 25 0) :=
    .next .start ⟨0, .accept 0 5 25, fun _ _ hp => absurd hp List.not_mem_nil, rfl⟩
  have hmap : (execAll ⟨true, .little⟩ sampleCallback ops (w0.accept 0 5 25 0)).map Prod.fst =
      some [⟨⟨5, Commands.send, Commands.ascii " was received from ".toList⟩,
        ⟨some 0, .response ⟨5, Commands.send, []⟩⟩, some 0⟩] := by decide
  obtain ⟨⟨ds, w⟩, hw, rfl⟩ := Option.map_eq_some_iff.mp hmap
  have hclean : ∀ op ∈ ops, ∀ w : Net 1, w.Clean op := by simp [ops, Net.Clean]
  exact deliveries_rightful _ _ (run_execAll _ _ hclean h1 hw) _ (by simp)

/-- The answer to the first connection is written to the second, which has its descriptor. -/
theorem deliveries_crossed :
    ¬∀ (k n : ℕ) (b : Build) (callback : Callback) (timeout : ℤ) (balancerIndex : Fin k → ℕ)
      (maxCount : ℕ) (ds : List Delivery) (w : Net k),
      Run (Step b callback n fun _ _ => True) (start timeout balancerIndex maxCount) ds w →
        ∀ d ∈ ds, d.Rightful callback := by
  intro h
  let w0 : Net 1 := start 10 (fun i => (i : ℕ)) 1
  let ops : List (NetOp 1 106) := [.accept 0 5 25, .pollRead 0 sampleBuffer [sampleRead], .close 0,
    .accept 0 5 25, .execute 0, .write 0 []]
  have hmap : (execAll ⟨true, .little⟩ sampleCallback ops w0).map
      (fun r => r.1.map fun d => (d.origin.conn, d.owner)) = some [(some 0, some 1)] := by decide
  obtain ⟨⟨ds, w⟩, hw, hds⟩ := Option.map_eq_some_iff.mp hmap
  have hr := h 1 106 _ _ _ _ _ _ _ (run_execAll ⟨true, .little⟩ sampleCallback
    (fun _ _ _ => trivial) .start hw)
  rw [List.nil_append] at hr
  obtain ⟨d, rfl, hd⟩ := List.map_eq_singleton_iff.mp hds
  rw [Prod.mk.injEq] at hd
  have hconn := (hr d (List.mem_singleton_self d) 1 hd.2).1
  rw [hd.1] at hconn
  exact absurd hconn (by decide)

end Net

end PollServer
