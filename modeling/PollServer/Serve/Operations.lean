import PollServer.Limit.Timestamps
import PollServer.Model.Server
import PollServer.Serve.Reception

/-! What each operation of a protocol does to its clients and to the packets that wait. -/

namespace PollServer

open Lib NetworkPacket

namespace ClientInfos

/-- What `update` is about is the number of events alone. -/
theorem update_eq (cs : ClientInfos) : cs.update.clientInfos = cs.clientInfos ∧
    cs.update.packetsToRead = cs.packetsToRead ∧ cs.update.packetsToWrite = cs.packetsToWrite := by
  unfold update
  split_ifs <;> exact ⟨rfl, rfl, rfl⟩

theorem execute_clients (cs : ClientInfos) (callback : NetworkPacket → ClientInfo → NetworkPacket) :
    (cs.execute callback).clientInfos = cs.clientInfos := by
  unfold execute
  split_ifs <;> rfl

theorem mem_of_oldest {cs : ClientInfos} {socket : ℤ} {c : ClientInfo}
    (h : cs.oldest socket = some c) : c ∈ cs.clientInfos.entries := by
  unfold oldest at h
  cases hf : cs.clientInfos.find socket with
  | some c' =>
    rw [hf, Option.some_or] at h
    cases h
    exact ((Keyed.find_eq_some _).mp hf).1
  | none =>
    rw [hf, Option.none_or] at h
    exact List.mem_of_mem_head? h

theorem entries_of_oldest {cs : ClientInfos} {socket : ℤ} (h : cs.oldest socket = none) :
    cs.clientInfos.entries = [] := by
  unfold oldest at h
  cases hf : cs.clientInfos.find socket with
  | some c' => simp [hf] at h
  | none => simpa [hf] using h

/-- A client of whom the sockets `warned` have been warned. -/
structure Warned (warned : List ℤ) (c c' : ClientInfo) : Prop where
  socket : c'.socket = c.socket
  weight : c'.deadlineMaxCount = c.deadlineMaxCount
  terminateNow : c'.terminateNow = c.terminateNow
  terminateOnNextCycle : c'.terminateOnNextCycle =
    (c.terminateOnNextCycle || decide (c.socket ∈ warned))

theorem Warned.refl (c : ClientInfo) : Warned [] c c := by
  constructor <;> simp

theorem Warned.trans {ws ws' : List ℤ} {c c' c'' : ClientInfo} (h : Warned ws c c')
    (h' : Warned ws' c' c'') : Warned (ws ++ ws') c c'' where
  socket := h'.socket.trans h.socket
  weight := h'.weight.trans h.weight
  terminateNow := h'.terminateNow.trans h.terminateNow
  terminateOnNextCycle := by
    rw [h'.terminateOnNextCycle, h.terminateOnNextCycle, h.socket, Bool.or_assoc]
    simp only [List.mem_append, Bool.decide_or]

/-- A client that gets a warning when its socket is considered. -/
def spared (infos : ClientInfoMap) (socket : ℤ) : Bool :=
  match infos.find socket with
  | some c => !(c.terminateOnNextCycle || c.terminateNow)
  | none => false

def heartBeatTo (socket : ℤ) : NetworkPacket := ⟨socket, Commands.heartBeat, []⟩

theorem put_warned {infos : ClientInfoMap} {socket : ℤ} {c : ClientInfo}
    (h : infos.find socket = some c) :
    Keyed.Changed (Warned (if c.terminateThisCycleOrNext.1 then [] else [socket])) infos
      (infos.put c.terminateThisCycleOrNext.2) ∧
    c.terminateThisCycleOrNext.2.socket = socket ∧
    spared infos socket = !c.terminateThisCycleOrNext.1 := by
  obtain ⟨hc, rfl⟩ := (Keyed.find_eq_some _).mp h
  simp only [spared, h, ClientInfo.terminateThisCycleOrNext]
  by_cases hf : (c.terminateOnNextCycle || c.terminateNow) = true
  · simp only [hf, if_true]
    refine ⟨Keyed.changed_put _ (fun c' hc' hs => ?_) (fun c' _ _ => .refl c'), trivial, trivial⟩
    rw [Keyed.eq_of_key _ hc' hc hs]
    exact .refl c
  · simp only [hf]
    refine ⟨Keyed.changed_put _ (fun c' hc' hs => ?_) (fun c' _ hs => ?_), rfl, by simp⟩
    · obtain rfl := Keyed.eq_of_key _ hc' hc hs
      exact ⟨rfl, rfl, rfl, by simp⟩
    · exact ⟨rfl, rfl, rfl, by simp [show ¬c'.socket = c.socket from hs]⟩

/-- **What `filterSocketsToTerminate` does to the clients that it considers.** -/
theorem filterSockets_spec {sockets : List ℤ} (hs : sockets.Nodup) (infos : ClientInfoMap) :
    (filterSockets sockets infos).1 = sockets.filter (fun socket => !spared infos socket) ∧
    (filterSockets sockets infos).2.1 = (sockets.filter (spared infos)).map heartBeatTo ∧
    Keyed.Changed (Warned (sockets.filter (spared infos))) infos
      (filterSockets sockets infos).2.2 := by
  induction sockets generalizing infos with
  | nil => exact ⟨rfl, rfl, Keyed.Changed.refl Warned.refl infos⟩
  | cons socket sockets ih =>
    rw [List.nodup_cons] at hs
    cases h : infos.find socket with
    | none =>
      obtain ⟨hsel, hwarn, hinfos⟩ := ih hs.2 infos
      have hspared : spared infos socket = false := by simp [spared, h]
      simp only [filterSockets, h]
      rw [List.filter_cons_of_pos (by simp [hspared]), List.filter_cons_of_neg (by simp [hspared])]
      exact ⟨congrArg (socket :: ·) hsel, hwarn, hinfos⟩
    | some c =>
      obtain ⟨hput, hsocket, hspared⟩ := put_warned h
      obtain ⟨hsel, hwarn, hinfos⟩ := ih hs.2 (infos.put c.terminateThisCycleOrNext.2)
      have hsame : ∀ s ∈ sockets, spared (infos.put c.terminateThisCycleOrNext.2) s = spared infos s := by
        intro s hs'
        have hne : s ≠ c.terminateThisCycleOrNext.2.socket := by
          rw [hsocket]
          exact ne_of_mem_of_not_mem hs' hs.1
        simp only [spared, Keyed.find_put_of_ne _ hne]
      rw [List.filter_congr hsame] at hwarn hinfos
      rw [List.filter_congr fun s hs' => congrArg _ (hsame s hs')] at hsel
      have hall := hput.comp hinfos fun _ _ _ ha hb => ha.trans hb
      simp only [filterSockets, h]
      cases hnow : c.terminateThisCycleOrNext.1
      · rw [hnow] at hspared hall
        rw [List.filter_cons_of_neg (by simp [hspared]), List.filter_cons_of_pos (by simp [hspared])]
        exact ⟨hsel, congrArg (heartBeatTo socket :: ·) hwarn, hall⟩
      · rw [hnow] at hspared hall
        rw [List.filter_cons_of_pos (by simp [hspared]), List.filter_cons_of_neg (by simp [hspared])]
        exact ⟨congrArg (socket :: ·) hsel, hwarn, hall⟩

end ClientInfos

open ClientInfos

namespace ServerLearnProtocol

variable (p : ServerLearnProtocol)

theorem nodup_considered (now : ℤ) : (p.considered now).Nodup := by
  unfold considered
  split_ifs
  · exact List.nodup_nil
  · exact MostRecentTimestamps.nodup_foldl_insert _ List.nodup_nil

/-- The sockets that a check warns. -/
def warned (now : ℤ) : List ℤ := (p.considered now).filter (spared p.clients)

/-- **What `execHealthCheck` does.** -/
structure Checked (now : ℤ) (socketsSelected : List ℤ) (r : List ℤ × ServerLearnProtocol) :
    Prop where
  selected : ∀ socket, socket ∈ r.1 ↔ socket ∈ socketsSelected ∨
    (socket ∈ p.considered now ∧ spared p.clients socket = false)
  balancerIndex : r.2.balancerIndex = p.balancerIndex
  timeout : r.2.timeout = p.timeout
  timestamps : r.2.mostRecentTimestamps = p.mostRecentTimestamps
  packetsToRead : r.2.clientInfos.packetsToRead = p.clientInfos.packetsToRead
  packetsToWrite : r.2.clientInfos.packetsToWrite =
    p.clientInfos.packetsToWrite ++ (p.warned now).map heartBeatTo
  clients : Keyed.Changed (Warned (p.warned now)) p.clients r.2.clients

theorem execHealthCheck_spec (socketsSelected : List ℤ) (now : ℤ) :
    p.Checked now socketsSelected (p.execHealthCheck socketsSelected now) := by
  by_cases he : p.considered now = []
  · have hw : p.warned now = [] := by rw [warned, he]; rfl
    have hr : p.execHealthCheck socketsSelected now = (socketsSelected, p) := by
      simp only [execHealthCheck, he, List.isEmpty_nil, if_true]
    rw [hr]
    refine ⟨by simp [he], rfl, rfl, rfl, rfl, by simp [hw], ?_⟩
    rw [hw]
    exact Keyed.Changed.refl Warned.refl _
  · obtain ⟨hsel, hwarn, hinfos⟩ := filterSockets_spec (p.nodup_considered now) p.clients
    have hr : p.execHealthCheck socketsSelected now =
        (socketsSelected ∪ (filterSockets (p.considered now) p.clients).1,
          { p with clientInfos := (p.clientInfos.filterSocketsToTerminate (p.considered now)).2 }) := by
      simp only [execHealthCheck, List.isEmpty_iff, if_neg he]
      rfl
    rw [hr]
    refine ⟨fun socket => ?_, rfl, rfl, rfl, rfl, congrArg (p.clientInfos.packetsToWrite ++ ·) hwarn,
      hinfos⟩
    dsimp only
    rw [hsel, List.mem_union_iff, List.mem_filter]
    simp

/-- **What `pollRead` does.** -/
structure Received {n : ℕ} (time : ℤ) (p' : ServerLearnProtocol) (v : Polled n) : Prop where
  known : ∀ q ∈ v.dispatched, q.socket ∈ p.clients
  clients : Keyed.Changed (ClientInfo.After v.dispatched) p.clients p'.clients
  packetsToRead : p'.clientInfos.packetsToRead =
    p.clientInfos.packetsToRead ++ v.dispatched.filter (IsSend ·)
  packetsToWrite : p'.clientInfos.packetsToWrite =
    p.clientInfos.packetsToWrite ++ v.dispatched.filterMap answer
  balancerIndex : p'.balancerIndex = p.balancerIndex
  timeout : p'.timeout = p.timeout
  timestamps : p'.mostRecentTimestamps = p.mostRecentTimestamps.updateFor v.socketsWeReadAt time

theorem pollRead_spec {n : ℕ} {b : Build} {shot : Shot} {buffer : Buffer n}
    {events : List EpollEvent} {time : ℤ} {p' : ServerLearnProtocol} {v : Polled n}
    (h : p.pollRead b shot buffer events time = .ok (p', v)) : p.Received time p' v := by
  rcases hpoll : onReadPoll b shot p.clientInfos.update buffer events with e | v'
  · rw [pollRead, hpoll] at h
    cases h
  · rw [pollRead, hpoll] at h
    cases h
    obtain ⟨hknown, hclients, hread, hwrite⟩ := onReadPoll_heard b shot hpoll
    obtain ⟨hmap, hr, hw⟩ := p.clientInfos.update_eq
    rw [hmap] at hknown hclients
    exact ⟨hknown, hclients, by rw [← hr]; exact hread, by rw [← hw]; exact hwrite, rfl, rfl,
      rfl⟩

theorem execute_clients (callback : NetworkPacket → ClientInfo → NetworkPacket) :
    (p.execute callback).clients = p.clients := p.clientInfos.execute_clients callback

/-- Only the packets that wait may differ. -/
structure Undisturbed (p' : ServerLearnProtocol) : Prop where
  clients : p'.clients = p.clients
  balancerIndex : p'.balancerIndex = p.balancerIndex
  timeout : p'.timeout = p.timeout
  timestamps : p'.mostRecentTimestamps = p.mostRecentTimestamps

theorem execute_undisturbed (callback : NetworkPacket → ClientInfo → NetworkPacket) :
    p.Undisturbed (p.execute callback) := ⟨p.execute_clients callback, rfl, rfl, rfl⟩

theorem write_undisturbed (b : Build) (sends : List (List SendEvent)) :
    p.Undisturbed (p.write b sends).2.2 := ⟨rfl, rfl, rfl, rfl⟩

end ServerLearnProtocol

namespace Server

/-! What the operations do that may fail, or that look at a protocol first. -/

variable {k n : ℕ} {s s' : Server k} {b : Build} {shot : Shot}
  {callback : NetworkPacket → ClientInfo → NetworkPacket} {time : ℤ} {i : Fin k}
  {es : List (Event k)}

theorem exec_pollRead {buffer : Buffer n} {events : List EpollEvent}
    (h : s.exec b shot callback time (.pollRead i buffer events) = .ok (es, s')) :
    ∃ p, ∃ v : Polled n, (s.protocols i).Received time p v ∧ s' = s.setBoth i (p, s.balancer) ∧
      es = v.dispatched.map .received ++ v.socketsWeReadAt.map (.updated i · time) := by
  simp only [exec] at h
  split at h
  · cases h
  · rename_i p v hread
    cases h
    exact ⟨p, v, ServerLearnProtocol.pollRead_spec _ hread, rfl, rfl⟩

theorem exec_move {j : Fin k} {socket : ℤ}
    (h : s.exec b shot callback time (.move i j socket : Op k n) = .ok (es, s')) :
    (s' = s ∧ es = []) ∨
      ∃ c, (s.protocols i).clientInfos.oldest socket = some c ∧ s' = s.move i j socket time ∧
        es = [.updated j c.socket time] := by
  simp only [exec] at h
  split at h
  · cases h
    exact Or.inl ⟨rfl, rfl⟩
  · rename_i c hc
    cases h
    exact Or.inr ⟨c, hc, rfl, rfl⟩

theorem exec_execHealthCheck
    (h : s.exec b shot callback time (.execHealthCheck i : Op k n) = .ok (es, s')) :
    ∃ selected p, (s.protocols i).Checked time [] (selected, p) ∧
      s' = s.setBoth i (p, s.balancer) ∧ es = ((s.protocols i).warned time).map .warned := by
  cases h
  refine ⟨_, _, (s.protocols i).execHealthCheck_spec [] time, rfl, ?_⟩
  rw [(filterSockets_spec ((s.protocols i).nodup_considered time) (s.protocols i).clients).2.1,
    List.map_map]
  rfl

theorem exec_execute
    (h : s.exec b shot callback time (.execute i : Op k n) = .ok (es, s')) :
    ∃ p, (s.protocols i).Undisturbed p ∧ s' = s.setBoth i (p, s.balancer) ∧ es = [] := by
  cases h
  exact ⟨_, ServerLearnProtocol.execute_undisturbed _ callback, rfl, rfl⟩

theorem exec_write {sends : List (List SendEvent)}
    (h : s.exec b shot callback time (.write i sends : Op k n) = .ok (es, s')) :
    ∃ p, (s.protocols i).Undisturbed p ∧ s' = s.setBoth i (p, s.balancer) ∧ es = [] := by
  simp only [exec] at h
  split at h
  · cases h
  · rename_i closed p hwrite
    cases h
    have hp : ((s.protocols i).write b sends).2.2 = p := by rw [hwrite]
    exact ⟨p, hp ▸ ServerLearnProtocol.write_undisturbed _ b sends, rfl, rfl⟩

end Server

end PollServer
