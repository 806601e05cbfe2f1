import PollServer.Serve.Closing
import PollServer.Serve.Operations

/-! The balancer's load against the clients, over any run of whole operations. -/

namespace PollServer

open Lib NetworkPacket ClientInfos

/-- What an operation that adds no client makes of a protocol and the balancer. -/
structure Kept (p : ServerLearnProtocol) (balancer : Priority)
    (r : ServerLearnProtocol × Priority) : Prop where
  members : ∀ socket ∈ r.1.clients, socket ∈ p.clients
  index : r.1.balancerIndex = p.balancerIndex
  length : r.2.sizes.length = balancer.sizes.length
  load : p.balancerIndex < balancer.sizes.length →
    balancer.load p.balancerIndex = p.clientInfos.weight →
      r.2.load p.balancerIndex = r.1.clientInfos.weight
  other : p.balancerIndex < balancer.sizes.length → ∀ i, i ≠ p.balancerIndex →
    r.2.load i = balancer.load i

section Kept

variable (p : ServerLearnProtocol) (balancer : Priority)

theorem kept_of_changed {R : ClientInfo → ClientInfo → Prop} {p p' : ServerLearnProtocol}
    (h : Keyed.Changed R p.clients p'.clients) (hs : ∀ c c', R c c' → c'.socket = c.socket)
    (hw : ∀ c c', R c c' → c'.deadlineMaxCount = c.deadlineMaxCount)
    (hi : p'.balancerIndex = p.balancerIndex) : Kept p balancer (p', balancer) where
  members socket hm := by rwa [Keyed.mem_def, h.keys hs] at hm
  index := hi
  length := rfl
  load _ hl := hl.trans (h.total _ hw).symm
  other _ _ _ := rfl

theorem kept_undisturbed {p p' : ServerLearnProtocol} (h : p.Undisturbed p') :
    Kept p balancer (p', balancer) := by
  refine kept_of_changed (R := Eq) _ ?_ (fun _ _ he => by rw [he]) (fun _ _ he => by rw [he])
    h.balancerIndex
  rw [h.clients]
  exact Keyed.Changed.refl (fun _ => rfl) _

/-- `closeSocketConnections` is `close`, and changes nothing else but the timestamps. -/
theorem closeSocketConnections_eq (sockets : List ℤ) :
    ∃ timestamps, (p.closeSocketConnections balancer sockets).2.2 =
      ({ p with
          clientInfos := (close sockets p.clientInfos balancer p.balancerIndex).2.1
          mostRecentTimestamps := timestamps },
        (close sockets p.clientInfos balancer p.balancerIndex).2.2) := by
  simp only [ServerLearnProtocol.closeSocketConnections]
  split_ifs
  · exact ⟨_, rfl⟩
  · exact ⟨_, rfl⟩

theorem closeSocketConnections_clientInfos (sockets : List ℤ) :
    (p.closeSocketConnections balancer sockets).2.2.1.clientInfos =
      { p.clientInfos with clientInfos := p.clients.eraseAll sockets } := by
  obtain ⟨timestamps, heq⟩ := closeSocketConnections_eq p balancer sockets
  rw [heq]
  exact close_clients sockets p.clientInfos balancer p.balancerIndex

theorem kept_closeSocketConnections (sockets : List ℤ) :
    Kept p balancer (p.closeSocketConnections balancer sockets).2.2 := by
  have hclients := closeSocketConnections_clientInfos p balancer sockets
  obtain ⟨timestamps, heq⟩ := closeSocketConnections_eq p balancer sockets
  refine ⟨fun socket hm => ?_, by rw [heq], by rw [heq]; exact close_length _ _ _ _,
    fun hi hl => by rw [heq]; exact close_load_eq _ _ hi hl,
    fun hi i hne => by rw [heq]; exact close_load_other _ _ hi hne⟩
  rw [ServerLearnProtocol.clients, hclients, Keyed.mem_eraseAll] at hm
  exact hm.1

theorem closeSocketConnections_closed (sockets : List ℤ) :
    (p.closeSocketConnections balancer sockets).1 =
      (close sockets p.clientInfos balancer p.balancerIndex).1 := by
  simp only [ServerLearnProtocol.closeSocketConnections]
  split_ifs <;> rfl

theorem closeSocketConnections_reports (sockets : List ℤ) (hs : sockets.Nodup) :
    let r := p.closeSocketConnections balancer sockets
    r.1 = sockets.filter (· ∈ p.clients) ∧
      r.2.1 = (if r.1 = [] then none else some r.1.length) ∧
      r.2.2.1.clients.entries.length + r.1.length = p.clients.entries.length := by
  intro r
  have hclosed : r.1 = sockets.filter (· ∈ p.clients) :=
    (closeSocketConnections_closed p balancer sockets).trans (close_closed _ _ _ _ hs)
  refine ⟨hclosed, ?_, ?_⟩
  · simp only [r, ServerLearnProtocol.closeSocketConnections, List.isEmpty_iff]
    split_ifs <;> rfl
  · rw [hclosed, ServerLearnProtocol.clients, closeSocketConnections_clientInfos]
    exact p.clients.length_eraseAll hs

theorem removeOldest_none {p : ServerLearnProtocol} {socket : ℤ}
    (h : p.clientInfos.oldest socket = none) (now : Timespec) :
    p.removeOldestClientAndReturn balancer socket now =
      (.make (-1) deadlineMaxCountDefault now,
        { p with mostRecentTimestamps := p.mostRecentTimestamps.removeSingle (-1) },
        balancer.decPriority p.balancerIndex deadlineMaxCountDefault) := by
  simp only [ServerLearnProtocol.removeOldestClientAndReturn, removeOldestClientAndReturn, h]
  rfl

theorem removeOldest_some {p : ServerLearnProtocol} {socket : ℤ} {c : ClientInfo}
    (h : p.clientInfos.oldest socket = some c) (now : Timespec) :
    p.removeOldestClientAndReturn balancer socket now =
      (c,
        { p with
          clientInfos := { p.clientInfos with clientInfos := p.clients.erase c.socket }
          mostRecentTimestamps := p.mostRecentTimestamps.removeSingle c.socket },
        balancer.decPriority p.balancerIndex c.deadlineMaxCount) := by
  simp only [ServerLearnProtocol.removeOldestClientAndReturn, removeOldestClientAndReturn, h]
  rfl

theorem kept_removeOldest (socket : ℤ) (now : Timespec) :
    Kept p balancer (p.removeOldestClientAndReturn balancer socket now).2 := by
  cases h : p.clientInfos.oldest socket with
  | none =>
    rw [removeOldest_none balancer h]
    have hweight : p.clientInfos.weight = 0 := by
      rw [weight, Keyed.total, entries_of_oldest h]
      rfl
    refine ⟨fun socket hm => hm, rfl, balancer.length_decPriority _ _, fun hi hl => ?_,
      fun hi i hne => ?_⟩
    · -- the default weight is more than an empty protocol's load
      rw [Priority.load_decPriority hi, hl, hweight, if_neg]
      rintro ⟨-, h'⟩
      exact absurd h' (by decide)
    · rw [Priority.load_decPriority hi, if_neg fun h' => hne h'.1]
  | some c =>
    rw [removeOldest_some balancer h]
    have hfind : p.clientInfos.clientInfos.find c.socket = some c :=
      (Keyed.find_eq_some _).mpr ⟨mem_of_oldest h, rfl⟩
    have hweight := weight_erase hfind
    refine ⟨fun socket hm => ((Keyed.mem_erase _).mp hm).1, rfl, balancer.length_decPriority _ _,
      fun hi hl => ?_, fun hi i hne => ?_⟩
    · rw [Priority.load_decPriority hi, if_pos ⟨rfl, by omega⟩]
      exact Nat.sub_eq_of_eq_add (hl.trans hweight.symm)
    · rw [Priority.load_decPriority hi, if_neg fun h' => hne h'.1]

end Kept

namespace Server

variable {k n : ℕ}

/-- No socket is a client of two protocols. -/
def Alone (s : Server k) : Prop :=
  ∀ i j socket, socket ∈ (s.protocols i).clients → socket ∈ (s.protocols j).clients → i = j

/-- The weights of all the clients. -/
def weight (s : Server k) : ℕ := ∑ i, (s.protocols i).clientInfos.weight

structure InStep (s : Server k) : Prop where
  alone : s.Alone
  index : ∀ i, (s.protocols i).balancerIndex < s.balancer.sizes.length
  distinct : ∀ i j, (s.protocols i).balancerIndex = (s.protocols j).balancerIndex → i = j
  load : ∀ i, s.balancer.load (s.protocols i).balancerIndex = (s.protocols i).clientInfos.weight

section SetBoth

variable {s : Server k} {i : Fin k} {r : ServerLearnProtocol × Priority}

theorem setBoth_same (s : Server k) (i : Fin k) (r : ServerLearnProtocol × Priority) :
    (s.setBoth i r).protocols i = r.1 := Function.update_self ..

theorem setBoth_other (s : Server k) {i j : Fin k} (r : ServerLearnProtocol × Priority)
    (h : j ≠ i) : (s.setBoth i r).protocols j = s.protocols j := Function.update_of_ne h ..

theorem weight_setBoth_le (s : Server k) (i : Fin k) (r : ServerLearnProtocol × Priority) :
    r.1.clientInfos.weight ≤ (s.setBoth i r).weight := by
  have h := Finset.single_le_sum (f := fun j => ((s.setBoth i r).protocols j).clientInfos.weight)
    (fun _ _ => Nat.zero_le _) (Finset.mem_univ i)
  rwa [setBoth_same] at h

theorem Alone.setBoth (h : s.Alone)
    (hr : ∀ socket ∈ r.1.clients, socket ∈ (s.protocols i).clients ∨
      ∀ j, socket ∉ (s.protocols j).clients) : (s.setBoth i r).Alone := by
  have hold : ∀ j socket, j ≠ i → socket ∈ r.1.clients → socket ∉ (s.protocols j).clients := by
    intro j socket hj hs hs'
    rcases hr socket hs with h' | h'
    · exact hj (h _ _ _ hs' h')
    · exact h' j hs'
  intro j l socket hj hl
  by_cases hji : j = i <;> by_cases hli : l = i
  · exact hji.trans hli.symm
  · rw [hji, setBoth_same] at hj
    rw [setBoth_other _ _ hli] at hl
    exact absurd hl (hold l socket hli hj)
  · rw [hli, setBoth_same] at hl
    rw [setBoth_other _ _ hji] at hj
    exact absurd hj (hold j socket hji hl)
  · rw [setBoth_other _ _ hji] at hj
    rw [setBoth_other _ _ hli] at hl
    exact h _ _ _ hj hl

theorem Alone.kept (h : s.Alone) (hr : Kept (s.protocols i) s.balancer r) :
    (s.setBoth i r).Alone := h.setBoth fun socket hs => Or.inl (hr.members socket hs)

theorem InStep.setBoth (h : s.InStep)
    (hm : ∀ socket ∈ r.1.clients, socket ∈ (s.protocols i).clients ∨
      ∀ j, socket ∉ (s.protocols j).clients)
    (hidx : r.1.balancerIndex = (s.protocols i).balancerIndex)
    (hlen : r.2.sizes.length = s.balancer.sizes.length)
    (hload : r.2.load (s.protocols i).balancerIndex = r.1.clientInfos.weight)
    (hother : ∀ j, j ≠ (s.protocols i).balancerIndex → r.2.load j = s.balancer.load j) :
    (s.setBoth i r).InStep := by
  have hindex : ∀ j, ((s.setBoth i r).protocols j).balancerIndex = (s.protocols j).balancerIndex := by
    intro j
    by_cases hj : j = i
    · rw [hj, setBoth_same, hidx]
    · rw [setBoth_other _ _ hj]
  refine ⟨h.alone.setBoth hm, fun j => ?_, fun j l hjl => ?_, fun j => ?_⟩
  · rw [hindex]
    exact (h.index j).trans_eq hlen.symm
  · rw [hindex, hindex] at hjl
    exact h.distinct j l hjl
  · rw [hindex]
    by_cases hj : j = i
    · rw [hj, setBoth_same]
      exact hload
    · rw [setBoth_other _ _ hj, ← h.load j]
      exact hother _ fun hne => hj (h.distinct j i hne)

theorem InStep.kept (h : s.InStep) (hr : Kept (s.protocols i) s.balancer r) :
    (s.setBoth i r).InStep :=
  h.setBoth (fun socket hs => Or.inl (hr.members socket hs)) hr.index hr.length
    (hr.load (h.index i) (h.load i)) (hr.other (h.index i))

/-- A client whose socket is in no protocol is counted when it is added. -/
theorem InStep.add (h : s.InStep) {c : ClientInfo} (time : ℤ)
    (hc : ∀ j, c.socket ∉ (s.protocols j).clients) (hw : (s.add i c time).weight < 2 ^ 64) :
    (s.add i c time).InStep := by
  have hweight : ((s.protocols i).clientInfos.insert c).weight =
      c.deadlineMaxCount + (s.protocols i).clientInfos.weight := Keyed.total_insert _ (hc i) _
  have hle := weight_setBoth_le s i ((s.protocols i).add s.balancer c time)
  refine h.setBoth (fun socket hs => ?_) rfl (Priority.length_incPriority _ _ _) ?_ fun j hj => ?_
  · rcases (Keyed.mem_insert _).mp hs with rfl | hs
    · exact Or.inr hc
    · exact Or.inl hs
  · change _ = ((s.protocols i).clientInfos.insert c).weight
    apply (Priority.load_incPriority (h.index i) _ _).trans
    rw [if_pos rfl, h.load i, hweight, addSize_of_lt, Nat.add_comm]
    change ((s.protocols i).clientInfos.insert c).weight ≤ (s.add i c time).weight at hle
    omega
  · exact (Priority.load_incPriority (h.index i) _ _).trans (if_neg hj)

theorem weight_setBoth (s : Server k) (i : Fin k) (r : ServerLearnProtocol × Priority) :
    (s.setBoth i r).weight + (s.protocols i).clientInfos.weight =
      s.weight + r.1.clientInfos.weight := by
  have hrest : ∑ j ∈ Finset.univ.erase i, ((s.setBoth i r).protocols j).clientInfos.weight =
      ∑ j ∈ Finset.univ.erase i, (s.protocols j).clientInfos.weight :=
    Finset.sum_congr rfl fun j hj => by rw [setBoth_other _ _ (Finset.ne_of_mem_erase hj)]
  have hnew := Finset.add_sum_erase Finset.univ
    (fun j => ((s.setBoth i r).protocols j).clientInfos.weight) (Finset.mem_univ i)
  have hold := Finset.add_sum_erase Finset.univ
    (fun j => (s.protocols j).clientInfos.weight) (Finset.mem_univ i)
  rw [hrest, setBoth_same] at hnew
  rw [weight, weight, ← hnew, ← hold]
  omega

end SetBoth

section Move

variable {s : Server k} {i : Fin k} {socket : ℤ} {c : ClientInfo}

theorem removeOldest_eq (h : (s.protocols i).clientInfos.oldest socket = some c) (time : ℤ) :
    (s.removeOldest i socket time).1 = c := by
  rw [removeOldest, removeOldest_some _ h]

theorem kept_giveAway (s : Server k) (i : Fin k) (socket time : ℤ) :
    Kept (s.protocols i) s.balancer
      ((s.protocols i).removeOldestClientAndReturn s.balancer socket ⟨time, 0⟩).2 :=
  kept_removeOldest _ _ _ _

theorem giveAway_gone (hs : s.Alone) (h : (s.protocols i).clientInfos.oldest socket = some c)
    (time : ℤ) (j : Fin k) :
    c.socket ∉ ((s.removeOldest i socket time).2.protocols j).clients := by
  intro hj
  have hi : c.socket ∈ (s.protocols i).clients := Keyed.mem_of_entry _ (mem_of_oldest h)
  rw [removeOldest] at hj
  by_cases hji : j = i
  · rw [hji, setBoth_same, removeOldest_some _ h] at hj
    exact ((Keyed.mem_erase _).mp hj).2 rfl
  · rw [setBoth_other _ _ hji] at hj
    exact hji (hs _ _ _ hj hi)

theorem weight_giveAway (h : (s.protocols i).clientInfos.oldest socket = some c) (time : ℤ) :
    (s.removeOldest i socket time).2.weight + c.deadlineMaxCount = s.weight := by
  have hset := weight_setBoth s i
    ((s.protocols i).removeOldestClientAndReturn s.balancer socket ⟨time, 0⟩).2
  have hfind : (s.protocols i).clientInfos.clientInfos.find c.socket = some c :=
    (Keyed.find_eq_some _).mpr ⟨mem_of_oldest h, rfl⟩
  have herase := weight_erase hfind
  rw [removeOldest]
  rw [removeOldest_some _ h] at hset ⊢
  dsimp only [ServerLearnProtocol.clients] at hset ⊢
  omega

/-- A move leaves all the weights where they count. -/
theorem weight_move (hs : s.Alone) (h : (s.protocols i).clientInfos.oldest socket = some c)
    (j : Fin k) (time : ℤ) : (s.move i j socket time).weight = s.weight := by
  have hgive := weight_giveAway h time
  have hset := weight_setBoth (s.removeOldest i socket time).2 j
    (((s.removeOldest i socket time).2.protocols j).add (s.removeOldest i socket time).2.balancer c time)
  have hinsert : (((s.removeOldest i socket time).2.protocols j).clientInfos.insert c).weight =
      c.deadlineMaxCount + ((s.removeOldest i socket time).2.protocols j).clientInfos.weight :=
    Keyed.total_insert _ (giveAway_gone hs h time j) _
  rw [move, removeOldest_eq h]
  change (Server.add _ j c time).weight + _ = _ + (ClientInfos.insert _ c).weight at hset
  omega

theorem Alone.add (hs : s.Alone) (j : Fin k) (time : ℤ)
    (hc : ∀ j, c.socket ∉ (s.protocols j).clients) : (s.add j c time).Alone := by
  apply hs.setBoth
  intro socket hm
  rcases (Keyed.mem_insert _).mp hm with rfl | hm
  · exact Or.inr hc
  · exact Or.inl hm

theorem Alone.move (hs : s.Alone) (h : (s.protocols i).clientInfos.oldest socket = some c)
    (j : Fin k) (time : ℤ) : (s.move i j socket time).Alone := by
  rw [Server.move, removeOldest_eq h]
  exact (hs.kept (kept_giveAway s i socket time)).add j time (giveAway_gone hs h time)

theorem InStep.move (hs : s.InStep) (h : (s.protocols i).clientInfos.oldest socket = some c)
    (j : Fin k) (time : ℤ) (hw : s.weight < 2 ^ 64) : (s.move i j socket time).InStep := by
  have hmove := weight_move hs.alone h j time
  rw [Server.move, removeOldest_eq h] at hmove ⊢
  exact (hs.kept (kept_giveAway s i socket time)).add time (giveAway_gone hs.alone h time)
    (hmove.trans_lt hw)

/-- **Rebalancing keeps the registry and the balancer in step**, as it is a run of moves. -/
theorem InStep.downCallback (begin : ℕ → ℤ) (time : ℤ) (count : ℕ) {s : Server k} (hs : s.InStep)
    (hw : s.weight < 2 ^ 64) (prevSocket : ℤ) :
    (s.downCallback begin time count prevSocket).InStep := by
  induction count generalizing s prevSocket with
  | zero => exact hs
  | succ count ih =>
    simp only [Server.downCallback]
    split
    · split
      · exact hs
      split
      · exact hs
      · rename_i c h
        split
        · exact hs
        · exact ih (hs.move h _ time hw) (by rw [weight_move hs.alone h]; exact hw) _
    · exact hs

end Move

section Runs

variable (b : Build) (shot : Shot) (callback : NetworkPacket → ClientInfo → NetworkPacket)

/-- The file descriptor of a new connection is no client's. -/
def Fresh (s : Server k) : Op k n → Prop
  | .add _ clientInfo => ∀ j, clientInfo.socket ∉ (s.protocols j).clients
  | _ => True

/-- **What an operation can do to the clients and the balancer.** -/
theorem exec_cases {s s' : Server k} {time : ℤ} {op : Op k n} {es : List (Event k)}
    (h : s.exec b shot callback time op = .ok (es, s')) :
    (∃ i c, op = .add i c ∧ s' = s.add i c time) ∨
    (∃ i j socket c, op = .move i j socket ∧ (s.protocols i).clientInfos.oldest socket = some c ∧
      s' = s.move i j socket time) ∨
    s' = s ∨
    ∃ i r, s' = s.setBoth i r ∧ Kept (s.protocols i) s.balancer r := by
  cases op with
  | add i c =>
    cases h
    exact Or.inl ⟨i, c, rfl, rfl⟩
  | pollRead i buffer events =>
    obtain ⟨p, v, hspec, rfl, -⟩ := exec_pollRead h
    exact Or.inr <| Or.inr <| Or.inr ⟨i, _, rfl, kept_of_changed _ hspec.clients
      (fun _ _ ha => ha.socket) (fun _ _ ha => ha.weight) hspec.balancerIndex⟩
  | closeSocketConnections i sockets =>
    cases h
    exact Or.inr <| Or.inr <| Or.inr ⟨i, _, rfl, kept_closeSocketConnections _ _ _⟩
  | removeOldest i socket =>
    cases h
    exact Or.inr <| Or.inr <| Or.inr ⟨i, _, rfl, kept_giveAway s i socket time⟩
  | move i j socket =>
    obtain ⟨rfl, -⟩ | ⟨c, hc, rfl, -⟩ := exec_move h
    · exact Or.inr <| Or.inr <| Or.inl rfl
    · exact Or.inr <| Or.inl ⟨i, j, socket, c, rfl, hc, rfl⟩
  | execHealthCheck i =>
    obtain ⟨_, p, hspec, rfl, -⟩ := exec_execHealthCheck h
    exact Or.inr <| Or.inr <| Or.inr ⟨i, _, rfl, kept_of_changed _ hspec.clients
      (fun _ _ ha => ha.socket) (fun _ _ ha => ha.weight) hspec.balancerIndex⟩
  | execute i =>
    obtain ⟨p, hp, rfl, -⟩ := exec_execute h
    exact Or.inr <| Or.inr <| Or.inr ⟨i, _, rfl, kept_undisturbed _ hp⟩
  | write i sends =>
    obtain ⟨p, hp, rfl, -⟩ := exec_write h
    exact Or.inr <| Or.inr <| Or.inr ⟨i, _, rfl, kept_undisturbed _ hp⟩

theorem Alone.exec {s s' : Server k} {time : ℤ} {op : Op k n} {es : List (Event k)}
    (hs : s.Alone) (hf : s.Fresh op) (h : s.exec b shot callback time op = .ok (es, s')) :
    s'.Alone := by
  obtain ⟨i, c, rfl, rfl⟩ | ⟨i, j, socket, c, rfl, hc, rfl⟩ | rfl | ⟨i, r, rfl, hr⟩ :=
    exec_cases b shot callback h
  · exact hs.add i time hf
  · exact hs.move hc j time
  · exact hs
  · exact hs.kept hr

theorem InStep.exec {s s' : Server k} {time : ℤ} {op : Op k n} {es : List (Event k)}
    (hs : s.InStep) (hf : s.Fresh op) (h : s.exec b shot callback time op = .ok (es, s'))
    (hw : s.weight < 2 ^ 64) (hw' : s'.weight < 2 ^ 64) : s'.InStep := by
  obtain ⟨i, c, rfl, rfl⟩ | ⟨i, j, socket, c, rfl, hc, rfl⟩ | rfl | ⟨i, r, rfl, hr⟩ :=
    exec_cases b shot callback h
  · exact hs.add time hf hw'
  · exact hs.move hc j time hw
  · exact hs
  · exact hs.kept hr

/-- A step of a server whose clients' weights fit into a `size_t`. -/
def LoadStep (n : ℕ) (s : Server k) (es : List (Event k)) (s' : Server k) : Prop :=
  ∃ (time : ℤ) (op : Op k n), s.Fresh op ∧ s.exec b shot callback time op = .ok (es, s') ∧
    s'.weight < 2 ^ 64

variable {timeout : ℤ} {balancerIndex : Fin k → ℕ} {maxCount : ℕ}

theorem inStep_start (hd : Function.Injective balancerIndex) (hm : ∀ i, balancerIndex i < maxCount) :
    (start timeout balancerIndex maxCount).InStep where
  alone i _ socket h := absurd h (Keyed.not_mem_empty socket)
  index i := by simpa [start, ServerLearnProtocol.make] using hm i
  distinct i j h := hd h
  load i := Priority.load_make _ _

theorem weight_start : (start timeout balancerIndex maxCount).weight = 0 :=
  Finset.sum_eq_zero fun _ _ => rfl

theorem Run.inStep (hd : Function.Injective balancerIndex) (hm : ∀ i, balancerIndex i < maxCount)
    {history : List (Event k)} {s : Server k}
    (hr : Run (LoadStep b shot callback n) (start timeout balancerIndex maxCount) history s) :
    s.InStep ∧ s.weight < 2 ^ 64 := by
  refine hr.invariant (I := fun _ s => s.InStep ∧ s.weight < 2 ^ 64)
    ⟨inStep_start hd hm, by rw [weight_start]; decide⟩ ?_
  rintro history es s s' ⟨hs, hw⟩ ⟨time, op, hf, hexec, hw'⟩
  exact ⟨hs.exec b shot callback hf hexec hw hw', hw'⟩

/-- **The registry and the balancer stay in step**: in every state reached the load of a
protocol is the sum of its clients' weights and no socket is a client of two. Closing a set
closes the clients in it, each once, and reports how many went. -/
theorem registry_in_step (hd : Function.Injective balancerIndex)
    (hm : ∀ i, balancerIndex i < maxCount) {history : List (Event k)} {s : Server k}
    (hr : Run (LoadStep b shot callback n) (start timeout balancerIndex maxCount) history s) :
    (∀ i, s.balancer.load (s.protocols i).balancerIndex = (s.protocols i).clientInfos.weight) ∧
    s.Alone ∧
    ∀ i (sockets : List ℤ), sockets.Nodup →
      let r := (s.protocols i).closeSocketConnections s.balancer sockets
      r.1 = sockets.filter (· ∈ (s.protocols i).clients) ∧
      r.2.1 = (if r.1 = [] then none else some r.1.length) ∧
      r.2.2.1.clients.entries.length + r.1.length = (s.protocols i).clients.entries.length := by
  obtain ⟨hs, -⟩ := Run.inStep b shot callback hd hm hr
  exact ⟨hs.load, hs.alone, fun i sockets hsockets =>
    closeSocketConnections_reports _ _ sockets hsockets⟩

/-- Two clients are added to the second of two protocols and one to the first; that one is closed,
and one of the others is moved in its place. -/
theorem registry_in_step_moved : ∃ history s,
    Run (LoadStep ⟨true, .little⟩ .multi pollCallback 106) (start 10 (fun i : Fin 2 => (i : ℕ)) 2)
        history s ∧
      s.balancer.load 0 = 25 ∧ s.balancer.load 1 = 10 ∧
      ((s.protocols 0).closeSocketConnections s.balancer [7, 5, 6]).1 = [6] := by
  have h1 : Run (LoadStep ⟨true, .little⟩ .multi pollCallback 106)
      (start 10 (fun i : Fin 2 => (i : ℕ)) 2) _ _ :=
    .next .start ⟨0, .add 0 (.make 5 10 ⟨0, 0⟩), by unfold Fresh; decide, rfl, by decide⟩
  have h2 := h1.next ⟨0, .add 1 (.make 6 25 ⟨0, 0⟩), by unfold Fresh; decide, rfl, by decide⟩
  have h3 := h2.next ⟨0, .add 1 (.make 7 10 ⟨0, 0⟩), by unfold Fresh; decide, rfl, by decide⟩
  have h4 := h3.next ⟨0, .closeSocketConnections 0 [5], trivial, rfl, by decide⟩
  have h5 := h4.next ⟨0, .move 1 0 6, trivial, rfl, by decide⟩
  obtain ⟨hload, -, hclose⟩ := registry_in_step ⟨true, .little⟩ .multi pollCallback
    Fin.val_injective (fun i => i.isLt) h5
  exact ⟨_, _, h5, (hload 0).trans (by decide), (hload 1).trans (by decide),
    (hclose 0 [7, 5, 6] (by decide)).1.trans (by decide)⟩

end Runs

end Server

end PollServer
