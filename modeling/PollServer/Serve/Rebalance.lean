import PollServer.Serve.Load
import PollServer.Serve.Placement

/-! The loop of `downCallback`, between clients of one weight. It moves a client from a
most to a least loaded protocol, and it compares their indices where it should compare their
loads: protocols that are even are made uneven. -/

namespace PollServer

open Lib ClientInfos

section Shifts

variable {load load' : ℕ → ℕ} {k w x m W : ℕ}

/-- `w` goes from a greatest of `k` values, that of `x`, to a least one, that of `m`. -/
structure Shifts (load load' : ℕ → ℕ) (k w x m : ℕ) : Prop where
  greatest : x < k ∧ ∀ i < k, load i ≤ load x
  least : m < k ∧ ∀ i < k, load m ≤ load i
  given : load' x + w = load x
  taken : load' m = load m + w
  kept : ∀ i < k, i ≠ x → i ≠ m → load' i = load i

theorem Shifts.le (h : Shifts load load' k w x m) {i : ℕ} (hi : i < k) :
    load' i ≤ max (load x) (load m + w) := by
  by_cases hx : i = x
  · have := h.given
    rw [hx]
    omega
  by_cases hm : i = m
  · rw [hm, h.taken]
    exact le_max_right _ _
  · rw [h.kept i hi hx hm]
    exact (h.greatest.2 i hi).trans (le_max_left _ _)

theorem Shifts.ge (h : Shifts load load' k w x m) {i : ℕ} (hi : i < k) :
    min (load m) (load x - w) ≤ load' i := by
  by_cases hx : i = x
  · have := h.given
    rw [hx]
    omega
  by_cases hm : i = m
  · rw [hm, h.taken]
    omega
  · rw [h.kept i hi hx hm]
    exact (min_le_left _ _).trans (h.least.2 i hi)

/-- The values stay as near to each other, unless the shift goes past the middle by more. -/
theorem Even.shift (he : Even load k W) (h : Shifts load load' k w x m)
    (hroom : load m + w ≤ load x ∨ 2 * w ≤ W) : Even load' k W := by
  intro i hi j hj
  have hgap := he x h.greatest.1 m h.least.1
  have hxm := h.least.2 x h.greatest.1
  have hle := h.le hi
  have hge := h.ge hj
  have hx := h.given
  omega

/-- All the values are the same. -/
def Level (load : ℕ → ℕ) (k : ℕ) : Prop := ∀ i < k, ∀ j < k, load i = load j

theorem level_iff : Level load k ↔ Even load k 0 := by
  constructor
  · intro h i hi j hj
    exact (h i hi j hj).le
  · intro h i hi j hj
    exact le_antisymm (h i hi j hj) (h j hj i hi)

theorem Shifts.not_level (h : Shifts load load' k w x m) (he : Even load k W) (hW : W < 2 * w) :
    ¬Level load' k := by
  intro hl
  have hsame := hl x h.greatest.1 m h.least.1
  have hgap := he x h.greatest.1 m h.least.1
  have hx := h.given
  have hm := h.taken
  omega

end Shifts

namespace Priority

variable {p : Priority}

/-- `minIdx` names a least and `maxIdx` a greatest load. -/
structure Ranked (p : Priority) : Prop where
  least : p.Least
  range : p.maxIdx < p.sizes.length
  ge : ∀ i < p.sizes.length, p.load i ≤ p.load p.maxIdx

theorem maxIdx_trackMinMax (p : Priority) (i : ℕ) : (p.trackMinMax i).maxIdx =
    if p.load p.maxIdx < p.load i then i else p.maxIdx := by
  simp only [trackMinMax]
  split_ifs <;> first | rfl | contradiction

theorem turns_maxIdx : Turns maxIdx (· ≥ ·) where
  moves p i := by
    rw [maxIdx_trackMinMax]
    exact ite_eq_or_eq _ _ _
  keeps p i := by
    rw [maxIdx_trackMinMax]
    split_ifs <;> omega
  beats p i := by
    rw [maxIdx_trackMinMax]
    split_ifs <;> omega

/-- **The scan finds a least and a greatest load**, wherever it starts. -/
theorem setMinMaxIdx_ranked (hmin : p.minIdx < p.sizes.length) (hmax : p.maxIdx < p.sizes.length) :
    p.setMinMaxIdx.Ranked :=
  have ⟨hrange, hge⟩ := turns_maxIdx.setMinMaxIdx hmax
  ⟨setMinMaxIdx_least hmin, hrange, hge⟩

theorem Ranked.incPriority (h : p.Ranked) (index amount : ℕ) : (p.incPriority index amount).Ranked :=
  setMinMaxIdx_ranked (by simpa using h.least.range) (by simpa using h.range)

theorem Ranked.decPriority (h : p.Ranked) (index amount : ℕ) :
    (p.decPriority index amount).Ranked := by
  unfold Priority.decPriority
  split_ifs
  · exact setMinMaxIdx_ranked (by simpa using h.least.range) (by simpa using h.range)
  · exact h

theorem ranked_make {k : ℕ} (hk : 0 < k) : (make k).Ranked :=
  ⟨least_make hk, by rwa [length_make], fun i _ => by simp⟩

/-- The difference between the greatest and the least load. -/
def spread (sizes : List ℕ) : ℕ := sizes.max?.getD 0 - sizes.min?.getD 0

theorem load_mem (p : Priority) {i : ℕ} (hi : i < p.sizes.length) : p.load i ∈ p.sizes := by
  rw [load, List.getD, List.getElem?_eq_getElem hi]
  exact List.getElem_mem hi

theorem Ranked.spread_eq (h : p.Ranked) : spread p.sizes = p.load p.maxIdx - p.load p.minIdx := by
  have hall : ∀ a ∈ p.sizes, p.load p.minIdx ≤ a ∧ a ≤ p.load p.maxIdx := by
    intro a ha
    obtain ⟨i, hi, rfl⟩ := List.getElem_of_mem ha
    have hload : p.load i = p.sizes[i] := by
      rw [load, List.getD, List.getElem?_eq_getElem hi]
      rfl
    rw [← hload]
    exact ⟨h.least.le i hi, h.ge i hi⟩
  have hmax : p.sizes.max? = some (p.load p.maxIdx) :=
    List.max?_eq_some_iff.mpr ⟨p.load_mem h.range, fun a ha => (hall a ha).2⟩
  have hmin : p.sizes.min? = some (p.load p.minIdx) :=
    List.min?_eq_some_iff.mpr ⟨p.load_mem h.least.range, fun a ha => (hall a ha).1⟩
  rw [spread, hmax, hmin]
  rfl

theorem Ranked.even_iff (h : p.Ranked) {W : ℕ} : Even p.load p.sizes.length W ↔ spread p.sizes ≤ W := by
  rw [h.spread_eq]
  constructor
  · intro he
    have := he _ h.range _ h.least.range
    omega
  · intro hW i hi j hj
    have hi' := h.ge i hi
    have hj' := h.least.le j hj
    omega

end Priority

theorem close_ranked {balancer : Priority} (h : balancer.Ranked) (sockets : List ℤ) (cs : ClientInfos)
    (balancerIndex : ℕ) : (close sockets cs balancer balancerIndex).2.2.Ranked := by
  induction sockets generalizing cs balancer with
  | nil => exact h
  | cons socket sockets ih =>
    cases hf : cs.clientInfos.find socket with
    | none =>
      rw [close_missing hf]
      exact ih h cs
    | some info =>
      rw [close_found hf]
      exact ih (h.decPriority _ _) _

namespace Server

variable {k w : ℕ} {s s' : Server k}

/-- Every client weighs `w`, and the balancer knows what it carries. -/
structure Uniform (w : ℕ) (s : Server k) : Prop where
  inStep : s.InStep
  room : s.weight < 2 ^ 64
  index : ∀ i, (s.protocols i).balancerIndex = i
  length : s.balancer.sizes.length = k
  ranked : s.balancer.Ranked
  client : ∀ i, ∀ c ∈ (s.protocols i).clients.entries, c.deadlineMaxCount = w ∧ c.socket ≠ -1

theorem uniform_start (hk : 0 < k) (timeout : ℤ) :
    (start timeout (fun i : Fin k => (i : ℕ)) k).Uniform w where
  inStep := inStep_start Fin.val_injective fun i => i.isLt
  room := by rw [weight_start]; decide
  index _ := rfl
  length := Priority.length_make k
  ranked := Priority.ranked_make hk
  client _ c hc := absurd hc List.not_mem_nil

theorem Uniform.setBoth (h : s.Uniform w) {i : Fin k} {r : ServerLearnProtocol × Priority}
    (hs : (s.setBoth i r).InStep) (hroom : (s.setBoth i r).weight < 2 ^ 64)
    (hidx : r.1.balancerIndex = (s.protocols i).balancerIndex)
    (hlen : r.2.sizes.length = s.balancer.sizes.length) (hr : r.2.Ranked)
    (hc : ∀ c ∈ r.1.clients.entries, c.deadlineMaxCount = w ∧ c.socket ≠ -1) :
    (s.setBoth i r).Uniform w := by
  refine ⟨hs, hroom, fun j => ?_, hlen.trans h.length, hr, fun j => ?_⟩
  · by_cases hj : j = i
    · rw [hj, setBoth_same, hidx]
      exact h.index i
    · rw [setBoth_other _ _ hj]
      exact h.index j
  · by_cases hj : j = i
    · rw [hj, setBoth_same]
      exact hc
    · rw [setBoth_other _ _ hj]
      exact h.client j

theorem Uniform.load (h : s.Uniform w) (i : Fin k) :
    s.balancer.load i = (s.protocols i).clientInfos.weight := by
  have hload := h.inStep.load i
  rwa [h.index] at hload

theorem Uniform.load_eq (h : s.Uniform w) (i : Fin k) :
    s.balancer.load i = (s.protocols i).clients.entries.length * w := by
  have hweights : (s.protocols i).clients.entries.map ClientInfo.deadlineMaxCount =
      (s.protocols i).clients.entries.map fun _ => w :=
    List.map_congr_left fun c hc => (h.client i c hc).1
  rw [h.load, ClientInfos.weight, Keyed.total, ← ServerLearnProtocol.clients, hweights]
  simp

theorem Uniform.even_iff (h : s.Uniform w) {W : ℕ} :
    Even s.balancer.load k W ↔ Priority.spread s.balancer.sizes ≤ W := by
  have heven := h.ranked.even_iff (W := W)
  rwa [h.length] at heven

section Move

variable {i j : Fin k} {socket : ℤ} {c : ClientInfo}

theorem Uniform.move (h : s.Uniform w) (hc : (s.protocols i).clientInfos.oldest socket = some c)
    (j : Fin k) (time : ℤ) : (s.move i j socket time).Uniform w := by
  have hmoved := h.inStep.move hc j time h.room
  have hroom : (s.move i j socket time).weight < 2 ^ 64 := by
    rw [weight_move h.inStep.alone hc]
    exact h.room
  have hkept := kept_giveAway s i socket time
  have hgiven : (s.removeOldest i socket time).2.Uniform w := by
    apply h.setBoth (h.inStep.kept hkept) _ hkept.index hkept.length
    · rw [removeOldest_some _ hc]
      exact h.ranked.decPriority _ _
    · rw [removeOldest_some _ hc]
      exact fun c' hc' => h.client i c' ((Keyed.mem_entries_erase _).mp hc').1
    · exact (Nat.le.intro (weight_giveAway hc time)).trans_lt h.room
  rw [Server.move, removeOldest_eq hc] at hmoved hroom ⊢
  apply hgiven.setBoth hmoved hroom rfl (Priority.length_incPriority _ _ _)
    (hgiven.ranked.incPriority _ _)
  intro c' hc'
  rcases Keyed.mem_entries_insert _ hc' with rfl | hc'
  · exact h.client i _ (mem_of_oldest hc)
  · exact hgiven.client j c' hc'

theorem Uniform.move_shifts (h : s.Uniform w) (hc : (s.protocols i).clientInfos.oldest socket = some c)
    (hij : i ≠ j) (hi : (i : ℕ) = s.balancer.maxIdx) (hj : (j : ℕ) = s.balancer.minIdx) (time : ℤ) :
    Shifts s.balancer.load (s.move i j socket time).balancer.load k w i j := by
  have hmoved := h.move hc j time
  have hgone := giveAway_gone h.inStep.alone hc time
  have hfind : (s.protocols i).clients.find c.socket = some c :=
    (Keyed.find_eq_some _).mpr ⟨mem_of_oldest hc, rfl⟩
  have hweight := (h.client i c (mem_of_oldest hc)).1
  have hat : ∀ l, ((s.removeOldest i socket time).2.protocols l).clientInfos.weight +
      (if l = i then w else 0) = (s.protocols l).clientInfos.weight := by
    intro l
    rw [removeOldest]
    split_ifs with hl
    · rw [hl, setBoth_same, removeOldest_some _ hc, ← hweight]
      exact weight_erase hfind
    · rw [setBoth_other _ _ hl, Nat.add_zero]
  have hmove : ∀ l, ((s.move i j socket time).protocols l).clientInfos.weight =
      ((s.removeOldest i socket time).2.protocols l).clientInfos.weight + if l = j then w else 0 := by
    intro l
    rw [Server.move, removeOldest_eq hc]
    split_ifs with hl
    · rw [hl, Server.add, setBoth_same, ← hweight, Nat.add_comm]
      exact Keyed.total_insert _ (hgone j) _
    · rw [Server.add, setBoth_other _ _ hl, Nat.add_zero]
  have hload : ∀ l : Fin k, (s.move i j socket time).balancer.load l + (if l = i then w else 0) =
      s.balancer.load l + if l = j then w else 0 := by
    intro l
    have := hat l
    have := hmove l
    rw [hmoved.load, h.load]
    omega
  have hrange : ∀ l < k, l < s.balancer.sizes.length := fun l hl => by rwa [h.length]
  refine ⟨⟨i.isLt, fun l hl => ?_⟩, ⟨j.isLt, fun l hl => ?_⟩, ?_, ?_, fun l hl hli hlj => ?_⟩
  · rw [hi]
    exact h.ranked.ge l (hrange l hl)
  · rw [hj]
    exact h.ranked.least.le l (hrange l hl)
  · have := hload i
    rwa [if_pos rfl, if_neg hij, Nat.add_zero] at this
  · have := hload j
    rwa [if_pos rfl, if_neg hij.symm, Nat.add_zero] at this
  · have := hload ⟨l, hl⟩
    rwa [if_neg (by simpa [Fin.ext_iff] using hli), if_neg (by simpa [Fin.ext_iff] using hlj),
      Nat.add_zero, Nat.add_zero] at this

/-- A turn of the loop that moves a client between the protocols that the indices name. -/
theorem downCallback_moves {i j : Fin k} {c : ClientInfo} (hi : (i : ℕ) = s.balancer.maxIndex)
    (hj : (j : ℕ) = s.balancer.nextIndex) (hij : i ≠ j) {begin : ℕ → ℤ} {count : ℕ}
    (hc : (s.protocols i).clientInfos.oldest (begin count) = some c) {prevSocket : ℤ}
    (hprev : c.socket ≠ prevSocket) (time : ℤ) :
    s.downCallback begin time (count + 1) prevSocket =
      (s.move i j (begin count) time).downCallback begin time count c.socket := by
  obtain ⟨i, hik⟩ := i
  obtain ⟨j, hjk⟩ := j
  dsimp only at hi hj
  subst hi hj
  have hne : ¬s.balancer.maxIndex = s.balancer.nextIndex := fun heq => hij (Fin.ext heq)
  simp only [Server.downCallback]
  rw [dif_pos ⟨hik, hjk⟩, if_neg hne]
  simp only [hc]
  rw [if_neg hprev]

theorem downCallback_cases (s : Server k) (begin : ℕ → ℤ) (time : ℤ) (count : ℕ) (prevSocket : ℤ) :
    s.downCallback begin time (count + 1) prevSocket = s ∨
      ∃ (i j : Fin k) (c : ClientInfo), (i : ℕ) = s.balancer.maxIndex ∧ (j : ℕ) = s.balancer.nextIndex ∧
        i ≠ j ∧ (s.protocols i).clientInfos.oldest (begin count) = some c ∧ c.socket ≠ prevSocket := by
  simp only [Server.downCallback]
  by_cases hidx : s.balancer.maxIndex < k ∧ s.balancer.nextIndex < k
  swap
  · rw [dif_neg hidx]
    exact Or.inl rfl
  rw [dif_pos hidx]
  by_cases hne : s.balancer.maxIndex = s.balancer.nextIndex
  · rw [if_pos hne]
    exact Or.inl rfl
  rw [if_neg hne]
  cases hc : (s.protocols ⟨s.balancer.maxIndex, hidx.1⟩).clientInfos.oldest (begin count) with
  | none => exact Or.inl rfl
  | some c =>
    by_cases hprev : c.socket = prevSocket
    · exact Or.inl (if_pos hprev)
    · exact Or.inr ⟨_, ⟨_, hidx.2⟩, c, rfl, rfl, fun heq => hne (Fin.ext_iff.mp heq), hc, hprev⟩

theorem Uniform.downCallback (begin : ℕ → ℤ) (time : ℤ) (count : ℕ) (h : s.Uniform w) (prevSocket : ℤ) :
    (s.downCallback begin time count prevSocket).Uniform w := by
  induction count generalizing s prevSocket with
  | zero => exact h
  | succ count ih =>
    rcases downCallback_cases s begin time count prevSocket with heq | ⟨i, j, c, hi, hj, hij, hc, hprev⟩
    · rw [heq]
      exact h
    · rw [downCallback_moves hi hj hij hc hprev]
      exact ih (h.move hc j time) _

/-- **The loop keeps the loads as near as they were**, once they are not all the same. -/
theorem Uniform.downCallback_even (begin : ℕ → ℤ) (time : ℤ) (count : ℕ) (h : s.Uniform w) {W : ℕ}
    (he : Even s.balancer.load k W) (hW : 2 * w ≤ W ∨ ¬Level s.balancer.load k) (prevSocket : ℤ) :
    Even (s.downCallback begin time count prevSocket).balancer.load k W := by
  induction count generalizing s prevSocket with
  | zero => exact he
  | succ count ih =>
    rcases downCallback_cases s begin time count prevSocket with heq | ⟨i, j, c, hi, hj, hij, hc, hprev⟩
    · rw [heq]
      exact he
    · have hshift := h.move_shifts hc hij hi hj time
      rw [downCallback_moves hi hj hij hc hprev]
      rcases hW with hW | hlevel
      · exact ih (h.move hc j time) (he.shift hshift (Or.inr hW)) (Or.inl hW) _
      · -- loads that differ do so by a client's weight
        have hroom : s.balancer.load j + w ≤ s.balancer.load i := by
          have hle := hshift.least.2 i i.isLt
          have hne : s.balancer.load j ≠ s.balancer.load i := by
            intro heq
            apply hlevel
            intro a ha b hb
            have := hshift.greatest.2 a ha
            have := hshift.greatest.2 b hb
            have := hshift.least.2 a ha
            have := hshift.least.2 b hb
            omega
          rw [h.load_eq, h.load_eq] at hle hne ⊢
          rw [← Nat.succ_mul]
          apply Nat.mul_le_mul_right
          exact lt_of_mul_lt_mul_right (lt_of_le_of_ne hle hne) (Nat.zero_le w)
        apply ih (h.move hc j time) (he.shift hshift (Or.inl hroom))
        by_cases hsmall : W < 2 * w
        · exact Or.inr (hshift.not_level he hsmall)
        · exact Or.inl (by omega)

end Move

section Runs

/-- All the protocols carry the same load, not nothing, and the indices differ. -/
def Tied (s : Server k) : Prop :=
  s.balancer.maxIndex ≠ s.balancer.nextIndex ∧ 0 < s.balancer.load s.balancer.nextIndex ∧
    Level s.balancer.load k

theorem Uniform.tied_moves (h : s.Uniform w) (ht : s.Tied) (begin : ℕ → ℤ) (time : ℤ) :
    ∃ (i j : Fin k), Shifts s.balancer.load (s.downCallback begin time 1 (-1)).balancer.load k w i j := by
  obtain ⟨hne, hpos, hlevel⟩ := ht
  have hmax : s.balancer.maxIndex < k := h.ranked.range.trans_eq h.length
  have hmin : s.balancer.nextIndex < k := h.ranked.least.range.trans_eq h.length
  have hij : (⟨_, hmax⟩ : Fin k) ≠ ⟨_, hmin⟩ := fun heq => hne (Fin.ext_iff.mp heq)
  have hload : 0 < s.balancer.load (⟨_, hmax⟩ : Fin k) := by
    rw [hlevel _ hmax _ hmin]
    exact hpos
  obtain ⟨c, hc⟩ : ∃ c, (s.protocols ⟨_, hmax⟩).clientInfos.oldest (begin 0) = some c := by
    apply Option.isSome_iff_exists.mp
    rw [← Option.ne_none_iff_isSome]
    intro hnone
    rw [h.load_eq, ServerLearnProtocol.clients, entries_of_oldest hnone, List.length_nil,
      Nat.zero_mul] at hload
    exact absurd hload (lt_irrefl 0)
  have hsocket := (h.client _ c (mem_of_oldest hc)).2
  refine ⟨⟨_, hmax⟩, ⟨_, hmin⟩, ?_⟩
  rw [downCallback_moves rfl rfl hij hc hsocket]
  exact h.move_shifts hc hij rfl rfl time

/-- Nothing is moved between protocols that are even and not tied. -/
theorem Uniform.untied (h : s.Uniform w) (hw : 0 < w) (hlevel : Level s.balancer.load k) (ht : ¬s.Tied)
    (begin : ℕ → ℤ) (time : ℤ) (count : ℕ) (prevSocket : ℤ) :
    s.downCallback begin time count prevSocket = s := by
  cases count with
  | zero => rfl
  | succ count =>
    rcases downCallback_cases s begin time count prevSocket with heq | ⟨i, j, c, hi, hj, hij, hc, -⟩
    · exact heq
    · exfalso
      apply ht
      refine ⟨fun heq => hij (Fin.ext ((hi.trans heq).trans hj.symm)), ?_, hlevel⟩
      rw [← hj, hlevel j j.isLt i i.isLt, h.load_eq]
      exact Nat.mul_pos (List.length_pos_of_mem (mem_of_oldest hc)) hw

/-- **From a state of clients of one weight**, the loop never makes the loads less even if
and only if the state is not tied. -/
theorem Uniform.rebalance (h : s.Uniform w) (hw : 0 < w) :
    (∀ (begin : ℕ → ℤ) (time : ℤ) (count : ℕ),
      Priority.spread (s.downCallback begin time count (-1)).balancer.sizes ≤
        Priority.spread s.balancer.sizes) ↔ ¬s.Tied := by
  constructor
  · intro hall ht
    obtain ⟨i, j, hshift⟩ := h.tied_moves ht (fun _ => 0) 0
    have hflat := level_iff.mp ht.2.2
    apply hshift.not_level hflat (by omega)
    apply level_iff.mpr
    have hspread := h.even_iff.mp hflat
    have hafter := (h.downCallback (fun _ => 0) 0 1 (-1)).even_iff (W := 0)
    exact hafter.mpr ((hall _ 0 1).trans hspread)
  · intro ht begin time count
    by_cases hlevel : Level s.balancer.load k
    · rw [h.untied hw hlevel ht]
    · have heven : Even s.balancer.load k (Priority.spread s.balancer.sizes) := h.even_iff.mpr le_rfl
      exact (h.downCallback begin time count (-1)).even_iff.mp
        (h.downCallback_even begin time count heven (Or.inr hlevel) (-1))

/-- What makes the states that the loop is run in: connections of weight `w` are placed,
sets of sockets are closed, and the loop is run. -/
def Serving (w : ℕ) (s : Server k) (es : List (Event k)) (s' : Server k) : Prop :=
  s'.weight < 2 ^ 64 ∧
    ((∃ clientInfo time, clientInfo.deadlineMaxCount = w ∧ clientInfo.socket ≠ -1 ∧
        (∀ i, clientInfo.socket ∉ (s.protocols i).clients) ∧ es = [.accepted clientInfo.socket] ∧
        s.accept clientInfo time = .ok s') ∨
      (∃ i sockets, es = [] ∧
        s' = s.setBoth i ((s.protocols i).closeSocketConnections s.balancer sockets).2.2) ∨
      ∃ begin time count, es = [] ∧ s' = s.downCallback begin time count (-1))

theorem Uniform.serving (h : s.Uniform w) {es : List (Event k)} (hs : s.Serving w es s') :
    s'.Uniform w := by
  obtain ⟨hroom, ⟨c, time, hw, hsocket, hfresh, -, ha⟩ | ⟨i, sockets, -, rfl⟩ | ⟨begin, time, count, -, rfl⟩⟩ := hs
  · unfold accept at ha
    dsimp only at ha
    split_ifs at ha with hi
    cases ha
    apply h.setBoth (h.inStep.add time hfresh hroom) hroom rfl (Priority.length_incPriority _ _ _)
      (h.ranked.incPriority _ _)
    intro c' hc'
    rcases Keyed.mem_entries_insert _ hc' with rfl | hc'
    · exact ⟨hw, hsocket⟩
    · exact h.client _ c' hc'
  · have hkept := kept_closeSocketConnections (s.protocols i) s.balancer sockets
    obtain ⟨timestamps, heq⟩ := closeSocketConnections_eq (s.protocols i) s.balancer sockets
    apply h.setBoth (h.inStep.kept hkept) hroom hkept.index hkept.length
    · rw [heq]
      exact close_ranked h.ranked _ _ _
    · intro c hc
      rw [ServerLearnProtocol.clients, closeSocketConnections_clientInfos] at hc
      exact h.client i c ((Keyed.mem_entries_eraseAll _).mp hc).1
  · exact h.downCallback begin time count (-1)

/-- **Rebalancing never makes the loads less even** if and only if they are not tied with
indices that differ. -/
theorem rebalance_even (hk : 0 < k) (hw : 0 < w) {timeout : ℤ} {history : List (Event k)}
    (hr : Run (Serving w) (start timeout (fun i : Fin k => (i : ℕ)) k) history s) :
    (∀ (begin : ℕ → ℤ) (time : ℤ) (count : ℕ),
      Priority.spread (s.downCallback begin time count (-1)).balancer.sizes ≤
        Priority.spread s.balancer.sizes) ↔ ¬s.Tied := by
  have hs : s.Uniform w := by
    induction hr with
    | start => exact uniform_start hk timeout
    | next _ hstep ih => exact ih.serving hstep
  exact hs.rebalance hw

/-- Two protocols to which clients have come, each with its protocol. -/
def sampleServer (placed : List (Fin 2 × ℤ)) : Server 2 :=
  placed.foldl (fun s client => s.add client.1 (.make client.2 25 ⟨0, 0⟩) 0)
    (start 10 (fun i : Fin 2 => (i : ℕ)) 2)

theorem run_three : Run (Serving 25) (sampleServer []) [.accepted 5, .accepted 6, .accepted 7]
    (sampleServer [(0, 5), (1, 6), (1, 7)]) := by
  have h1 : Serving 25 (sampleServer []) [.accepted 5] (sampleServer [(0, 5)]) :=
    ⟨by decide, Or.inl ⟨_, 0, rfl, by decide, by decide, rfl, rfl⟩⟩
  have h2 : Serving 25 (sampleServer [(0, 5)]) [.accepted 6] (sampleServer [(0, 5), (1, 6)]) :=
    ⟨by decide, Or.inl ⟨_, 0, rfl, by decide, by decide, rfl, rfl⟩⟩
  have h3 : Serving 25 (sampleServer [(0, 5), (1, 6)]) [.accepted 7]
      (sampleServer [(0, 5), (1, 6), (1, 7)]) :=
    ⟨by decide, Or.inl ⟨_, 0, rfl, by decide, by decide, rfl, rfl⟩⟩
  exact .next (.next (.next .start h1) h2) h3

/-- The only client of the first protocol goes, and one of the other two is moved. -/
theorem rebalance_even_moved : ∃ history s,
    Run (Serving 25) (sampleServer []) history s ∧ s.balancer.sizes = [0, 50] ∧
      (s.downCallback (fun _ => 6) 0 1 (-1)).balancer.sizes = [25, 25] ∧
      ∀ (begin : ℕ → ℤ) (time : ℤ) (count : ℕ),
        Priority.spread (s.downCallback begin time count (-1)).balancer.sizes ≤
          Priority.spread s.balancer.sizes := by
  have h4 : Serving 25 (sampleServer [(0, 5), (1, 6), (1, 7)]) [] _ :=
    ⟨by decide, Or.inr (Or.inl ⟨0, [5], rfl, rfl⟩)⟩
  have hr := run_three.next h4
  refine ⟨_, _, hr, by decide, by decide, (rebalance_even (by decide) (by decide) hr).mpr ?_⟩
  rintro ⟨-, hpos, -⟩
  exact absurd hpos (by decide)

/-- Of three clients on two protocols the second goes. The two that are left are one on each,
and the loop puts both on the first. -/
theorem rebalance_uneven :
    ¬∀ (k w : ℕ) (timeout : ℤ) (history : List (Event k)) (s : Server k), 0 < k → 0 < w →
      Run (Serving w) (start timeout (fun i : Fin k => (i : ℕ)) k) history s →
      ∀ (begin : ℕ → ℤ) (time : ℤ) (count : ℕ),
        Priority.spread (s.downCallback begin time count (-1)).balancer.sizes ≤
          Priority.spread s.balancer.sizes := by
  intro h
  have h4 : Serving 25 (sampleServer [(0, 5), (1, 6), (1, 7)]) [] _ :=
    ⟨by decide, Or.inr (Or.inl ⟨1, [6], rfl, rfl⟩)⟩
  have hs := h 2 25 10 _ _ (by decide) (by decide) (run_three.next h4) (fun _ => 7) 0 1
  exact absurd hs (by decide)

end Runs

end Server

end PollServer
