import PollServer.Model.Server

/-! The placement of accepted connections: the balancer names a least loaded protocol, and
so connections that only come keep the loads together. -/

namespace PollServer

open Lib

/-- No two of the first `k` values lie further apart than `W`. -/
def Even (load : ℕ → ℕ) (k W : ℕ) : Prop := ∀ i < k, ∀ j < k, load i ≤ load j + W

theorem Even.raise {load load' : ℕ → ℕ} {k W m w : ℕ} (h : Even load k W)
    (hm : ∀ j < k, load m ≤ load j) (hw : w ≤ W)
    (hl : ∀ i, load' i = if i = m then load i + w else load i) : Even load' k W := by
  intro i hi j hj
  have hgrow : load j ≤ load' j := by
    rw [hl]
    split_ifs <;> omega
  rw [hl i]
  split_ifs with him
  · have hleast := hm j hj
    rw [him]
    omega
  · have hij := h i hi j hj
    omega

namespace Priority

variable {p : Priority}

/-- `minIdx` is in range and names a least load. -/
structure Least (p : Priority) : Prop where
  range : p.minIdx < p.sizes.length
  le : ∀ i < p.sizes.length, p.load p.minIdx ≤ p.load i

theorem load_trackMinMax (p : Priority) (i j : ℕ) : (p.trackMinMax i).load j = p.load j := by
  rw [load, sizes_trackMinMax]
  rfl

theorem minIdx_trackMinMax (p : Priority) (i : ℕ) : (p.trackMinMax i).minIdx =
    if p.load i = 0 ∨ p.load i < p.load p.minIdx then i else p.minIdx := by
  simp only [trackMinMax]
  split_ifs <;> rfl

/-- A turn leaves the index that `pick` names, or takes its own `i`, and by `r` ranks what it leaves
no worse than either. -/
structure Turns (pick : Priority → ℕ) (r : ℕ → ℕ → Prop) : Prop where
  moves : ∀ (p : Priority) (i), pick (p.trackMinMax i) = i ∨ pick (p.trackMinMax i) = pick p
  keeps : ∀ (p : Priority) (i), r (p.load (pick (p.trackMinMax i))) (p.load (pick p))
  beats : ∀ (p : Priority) (i), r (p.load (pick (p.trackMinMax i))) (p.load i)

section Turns

variable {pick : Priority → ℕ} {r : ℕ → ℕ → Prop}

theorem Turns.inRange (h : Turns pick r) {i : ℕ} (hp : pick p < p.sizes.length)
    (hi : i < p.sizes.length) : pick (p.trackMinMax i) < (p.trackMinMax i).sizes.length := by
  rw [sizes_trackMinMax]
  rcases h.moves p i with heq | heq
  · rwa [heq]
  · rwa [heq]

variable [IsPreorder ℕ r]

theorem Turns.scan (h : Turns pick r) (l : List ℕ) (p : Priority) (hp : pick p < p.sizes.length)
    (hl : ∀ i ∈ l, i < p.sizes.length) :
    pick (l.foldl trackMinMax p) < p.sizes.length ∧
      r (p.load (pick (l.foldl trackMinMax p))) (p.load (pick p)) ∧
      ∀ i ∈ l, r (p.load (pick (l.foldl trackMinMax p))) (p.load i) := by
  induction l generalizing p with
  | nil => exact ⟨hp, refl_of r _, by simp⟩
  | cons i l ih =>
    obtain ⟨h1, h2, h3⟩ := ih (p.trackMinMax i) (h.inRange hp (hl i List.mem_cons_self))
      (by rw [sizes_trackMinMax]; exact fun j hj => hl j (List.mem_cons_of_mem _ hj))
    simp only [sizes_trackMinMax, load_trackMinMax] at h1 h2 h3
    refine ⟨h1, trans_of r h2 (h.keeps p i), fun j hj => ?_⟩
    rcases List.mem_cons.mp hj with rfl | hj
    · exact trans_of r h2 (h.beats p j)
    · exact h3 j hj

theorem Turns.setMinMaxIdx (h : Turns pick r) (hp : pick p < p.sizes.length) :
    pick p.setMinMaxIdx < p.setMinMaxIdx.sizes.length ∧
      ∀ i < p.setMinMaxIdx.sizes.length,
        r (p.setMinMaxIdx.load (pick p.setMinMaxIdx)) (p.setMinMaxIdx.load i) := by
  obtain ⟨hrange, -, hbest⟩ := h.scan (List.range p.sizes.length) p hp
    (fun i hi => List.mem_range.mp hi)
  have hload : ∀ i, p.setMinMaxIdx.load i = p.load i := fun i => by
    rw [load, sizes_setMinMaxIdx]
    rfl
  rw [sizes_setMinMaxIdx]
  refine ⟨hrange, fun i hi => ?_⟩
  rw [hload, hload]
  exact hbest i (List.mem_range.mpr hi)

end Turns

theorem turns_minIdx : Turns minIdx (· ≤ ·) where
  moves p i := by
    rw [minIdx_trackMinMax]
    exact ite_eq_or_eq _ _ _
  keeps p i := by
    rw [minIdx_trackMinMax]
    split_ifs <;> omega
  beats p i := by
    rw [minIdx_trackMinMax]
    split_ifs <;> omega

/-- **The scan finds a least load**, wherever it starts. -/
theorem setMinMaxIdx_least (hp : p.minIdx < p.sizes.length) : p.setMinMaxIdx.Least :=
  have ⟨hrange, hle⟩ := turns_minIdx.setMinMaxIdx hp
  ⟨hrange, hle⟩

theorem Least.incPriority (h : p.Least) (index amount : ℕ) : (p.incPriority index amount).Least :=
  setMinMaxIdx_least (by simpa using h.range)

theorem least_make {k : ℕ} (hk : 0 < k) : (make k).Least :=
  ⟨by rwa [length_make], fun i _ => by simp⟩

end Priority

namespace Server

variable {k : ℕ} {s s' : Server k} {W : ℕ}

/-- A connection of at most the weight `W` is placed, and no load wraps. -/
def Places (W : ℕ) (s : Server k) (placed : List ClientInfo) (s' : Server k) : Prop :=
  ∃ clientInfo time, placed = [clientInfo] ∧ clientInfo.deadlineMaxCount ≤ W ∧
    s.balancer.load s.balancer.nextIndex + clientInfo.deadlineMaxCount < 2 ^ 64 ∧
    s.accept clientInfo time = .ok s'

structure Placed (W : ℕ) (s : Server k) : Prop where
  index : ∀ i, (s.protocols i).balancerIndex = i
  length : s.balancer.sizes.length = k
  least : s.balancer.Least
  even : Even s.balancer.load k W

theorem placed_start (hk : 0 < k) (timeout : ℤ) : (start timeout (fun i : Fin k => i) k).Placed W where
  index _ := rfl
  length := Priority.length_make k
  least := Priority.least_make hk
  even i _ j _ := by simp [start]

theorem Placed.step (h : s.Placed W) {placed : List ClientInfo} (hs : s.Places W placed s') :
    s'.Placed W := by
  obtain ⟨clientInfo, time, -, hw, hwrap, ha⟩ := hs
  unfold accept at ha
  dsimp only at ha
  split_ifs at ha with hi
  cases ha
  have hbalancer : (s.add ⟨_, hi⟩ clientInfo time).balancer =
      s.balancer.incPriority s.balancer.nextIndex clientInfo.deadlineMaxCount := by
    change s.balancer.incPriority (s.protocols ⟨_, hi⟩).balancerIndex _ = _
    rw [h.index]
  refine ⟨fun i => ?_, ?_, ?_, ?_⟩
  · by_cases hj : i = ⟨_, hi⟩
    · subst hj
      exact (congrArg _ (Function.update_self _ _ _)).trans (h.index _)
    · exact (congrArg _ (Function.update_of_ne hj _ _)).trans (h.index _)
  · rw [hbalancer, Priority.length_incPriority, h.length]
  · rw [hbalancer]
    exact h.least.incPriority _ _
  · rw [hbalancer]
    have hleast : ∀ j < k, s.balancer.load s.balancer.nextIndex ≤ s.balancer.load j :=
      fun j hj => h.least.le j (by rwa [h.length])
    apply h.even.raise hleast hw
    intro i
    rw [Priority.load_incPriority (by rwa [h.length])]
    by_cases him : i = s.balancer.nextIndex
    · rw [if_pos him, if_pos him, him]
      exact addSize_of_lt hwrap
    · rw [if_neg him, if_neg him]

/-- **As long as connections of weights up to `W` only come, each is placed, and the loads
never differ by more than `W`.** -/
theorem placement_even (hk : 0 < k) {timeout : ℤ} {placed : List ClientInfo}
    (h : Run (Places W) (start timeout (fun i : Fin k => i) k) placed s) :
    (∀ clientInfo time, ∃ s', s.accept clientInfo time = .ok s') ∧
      Even s.balancer.load k W := by
  have hp : s.Placed W := by
    induction h with
    | start => exact placed_start hk timeout
    | next _ hs ih => exact ih.step hs
  have hi : s.balancer.nextIndex < k := by
    have := hp.least.range
    rwa [hp.length] at this
  exact ⟨fun clientInfo time => ⟨_, dif_pos hi⟩, hp.even⟩

/-- Of three connections two come to the second protocol, which has the lighter load before the
third. -/
theorem placement_even_three : ∃ placed s, placed.length = 3 ∧
    Run (Places 25) (start 10 (fun i : Fin 2 => i) 2) placed s ∧ s.balancer.sizes = [25, 30] ∧
      (∀ clientInfo time, ∃ s', s.accept clientInfo time = .ok s') ∧ Even s.balancer.load 2 25 := by
  have h1 : Run (Places 25) (start 10 (fun i : Fin 2 => i) 2) [.make 5 25 ⟨0, 0⟩] _ :=
    .next .start ⟨_, 0, rfl, by decide, by decide, rfl⟩
  have h2 := h1.next ⟨.make 6 10 ⟨0, 0⟩, 0, rfl, by decide, by decide, rfl⟩
  have h3 := h2.next ⟨.make 7 20 ⟨0, 0⟩, 0, rfl, by decide, by decide, rfl⟩
  exact ⟨_, _, rfl, h3, by decide, placement_even (by decide) h3⟩

end Server

end PollServer
