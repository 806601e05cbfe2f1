import PollServer.Lib.Runs
import PollServer.Serve.Rebalance

/-! The balancer on its own: which entries its two indices name after any operations, and after a
new `MaxCount`. The checked operations are the same, and end at the first access to `sizes` that
is outside the vector. -/

namespace PollServer.Priority

open Lib

inductive Operation where
  | inc (index amount : ℕ)
  | dec (index amount : ℕ)
  | set (index value : ℕ)
  deriving DecidableEq

def Operation.index : Operation → ℕ
  | .inc index _ | .dec index _ | .set index _ => index

def apply (p : Priority) : Operation → Priority
  | .inc index amount => p.incPriority index amount
  | .dec index amount => p.decPriority index amount
  | .set index value => p.setPriority index value

variable {p : Priority} {op : Operation} {ops : List Operation} {k m : ℕ}

@[simp] theorem length_apply (p : Priority) (op : Operation) :
    (p.apply op).sizes.length = p.sizes.length := by
  cases op <;> simp [apply]

@[simp] theorem length_foldl_apply (p : Priority) (ops : List Operation) :
    (ops.foldl apply p).sizes.length = p.sizes.length := by
  induction ops generalizing p with
  | nil => rfl
  | cons op ops ih => rw [List.foldl_cons, ih, length_apply]

theorem Ranked.apply (h : p.Ranked) (op : Operation) : (p.apply op).Ranked := by
  cases op with
  | inc index amount => exact h.incPriority index amount
  | dec index amount => exact h.decPriority index amount
  | set index value =>
    exact setMinMaxIdx_ranked (by simpa using h.least.range) (by simpa using h.range)

theorem Ranked.foldl_apply (h : p.Ranked) (ops : List Operation) :
    (ops.foldl Priority.apply p).Ranked := by
  induction ops generalizing p with
  | nil => exact h
  | cons op ops ih => exact ih (h.apply op)

/-- `nextIndex` names a least and `maxIndex` a greatest of the first `m` entries. -/
structure Names (m : ℕ) (p : Priority) : Prop where
  next : p.nextIndex < m
  max : p.maxIndex < m
  le : ∀ j < m, p.load p.nextIndex ≤ p.load j
  ge : ∀ j < m, p.load j ≤ p.load p.maxIndex

theorem Ranked.names (h : p.Ranked) : p.Names p.sizes.length :=
  ⟨h.least.range, h.range, h.least.le, h.ge⟩

section Checked

/-- `p'`, if there is an entry at each of the indices. -/
def accessing (p : Priority) (indices : List ℕ) (p' : Priority) : Except Stop Priority :=
  if ∀ index ∈ indices, index < p.sizes.length then .ok p' else .error .outOfBounds

/-- What a turn of the loop reads: a load of 0 is not compared to the one at `minIdx`. -/
def accessed (p : Priority) (i : ℕ) : List ℕ :=
  i :: (if p.load i = 0 then [p.maxIdx] else [p.minIdx, p.maxIdx])

def trackMinMaxChecked (p : Priority) (i : ℕ) : Except Stop Priority :=
  p.accessing (p.accessed i) (p.trackMinMax i)

def setMinMaxIdxChecked (p : Priority) : Except Stop Priority :=
  (List.range p.sizes.length).foldlM trackMinMaxChecked p

/-- Whether the operation comes to `SetMinMaxIdx`. -/
def Operation.scans (p : Priority) : Operation → Bool
  | .inc _ _ | .set _ _ => true
  | .dec index amount => amount ≤ p.load index

def applyChecked (p : Priority) (op : Operation) : Except Stop Priority := do
  let written ← p.accessing [op.index] { p with sizes := (p.apply op).sizes }
  if op.scans p then written.setMinMaxIdxChecked else pure written

/-- The indices are those of entries. -/
structure InRange (p : Priority) : Prop where
  min : p.minIdx < p.sizes.length
  max : p.maxIdx < p.sizes.length

theorem accessing_ok {indices : List ℕ} (h : ∀ index ∈ indices, index < p.sizes.length)
    (p' : Priority) : p.accessing indices p' = .ok p' := if_pos h

theorem trackMinMaxChecked_eq (h : p.InRange) {i : ℕ} (hi : i < p.sizes.length) :
    p.trackMinMaxChecked i = .ok (p.trackMinMax i) := by
  refine accessing_ok ?_ _
  intro index hindex
  unfold accessed at hindex
  have hmin := h.min
  have hmax := h.max
  split_ifs at hindex <;> simp only [List.mem_cons, List.not_mem_nil, or_false] at hindex
  · rcases hindex with rfl | rfl
    · exact hi
    · exact hmax
  · rcases hindex with rfl | rfl | rfl
    · exact hi
    · exact hmin
    · exact hmax

theorem InRange.trackMinMax (h : p.InRange) {i : ℕ} (hi : i < p.sizes.length) :
    (p.trackMinMax i).InRange :=
  ⟨turns_minIdx.inRange h.min hi, turns_maxIdx.inRange h.max hi⟩

theorem setMinMaxIdxChecked_eq (h : p.InRange) :
    p.setMinMaxIdxChecked = .ok p.setMinMaxIdx ∧ p.setMinMaxIdx.InRange := by
  have hscan := foldlM_eq (f := trackMinMaxChecked) (g := Priority.trackMinMax)
    (I := fun q => q.InRange ∧ q.sizes.length = p.sizes.length) (P := fun i => i < p.sizes.length)
    (fun q i ⟨hq, hlen⟩ hi => by
      rw [← hlen] at hi
      exact ⟨trackMinMaxChecked_eq hq hi, hq.trackMinMax hi, by rw [sizes_trackMinMax, hlen]⟩)
    (l := List.range p.sizes.length) (fun i hi => List.mem_range.mp hi) ⟨h, rfl⟩
  exact ⟨hscan.1, hscan.2.1⟩

/-- An operation writes, and scans what it has written, or does nothing. -/
theorem apply_eq (p : Priority) (op : Operation) :
    p.apply op = if op.scans p then setMinMaxIdx { p with sizes := (p.apply op).sizes } else p := by
  cases op with
  | inc index amount => simp [apply, incPriority, Operation.scans]
  | set index value => simp [apply, setPriority, Operation.scans]
  | dec index amount =>
    simp only [apply, decPriority, Operation.scans, decide_eq_true_eq]
    split_ifs
    · simp
    · rfl

/-- **An operation on an entry makes no access outside the vector.** -/
theorem applyChecked_eq (h : p.InRange) (hop : op.index < p.sizes.length) :
    p.applyChecked op = .ok (p.apply op) ∧ (p.apply op).InRange := by
  have hlen : (p.apply op).sizes.length = p.sizes.length := length_apply p op
  have hwritten : ({ p with sizes := (p.apply op).sizes } : Priority).InRange :=
    ⟨h.min.trans_eq hlen.symm, h.max.trans_eq hlen.symm⟩
  obtain ⟨hscan, hrange⟩ := setMinMaxIdxChecked_eq hwritten
  have happly := apply_eq p op
  rw [applyChecked, accessing_ok (by simpa using hop)]
  simp only [bind, Except.bind]
  cases hs : op.scans p with
  | true =>
    rw [if_pos rfl, hscan]
    rw [hs, if_pos rfl] at happly
    exact ⟨by rw [← happly], by rwa [← happly] at hrange⟩
  | false =>
    rw [hs, if_neg Bool.false_ne_true] at happly
    rw [if_neg Bool.false_ne_true, happly]
    exact ⟨rfl, h⟩

theorem foldlM_applyChecked (h : p.InRange) (hops : ∀ op ∈ ops, op.index < p.sizes.length) :
    ops.foldlM applyChecked p = .ok (ops.foldl Priority.apply p) := by
  have hrun := foldlM_eq (f := applyChecked) (g := Priority.apply)
    (I := fun q => q.InRange ∧ q.sizes.length = p.sizes.length)
    (P := fun op : Operation => op.index < p.sizes.length)
    (fun q op ⟨hq, hlen⟩ hop => by
      rw [← hlen] at hop
      obtain ⟨heq, hnext⟩ := applyChecked_eq hq hop
      exact ⟨heq, hnext, by rw [length_apply, hlen]⟩)
    hops ⟨h, rfl⟩
  exact hrun.1

theorem Names.inRange (h : p.Names p.sizes.length) : p.InRange := ⟨h.next, h.max⟩

/-- **The indices name a least and a greatest load**, after any operations. -/
theorem operations_name (hk : 0 < k) (hops : ∀ op ∈ ops, op.index < k) :
    ∃ p, ops.foldlM applyChecked (make k) = .ok p ∧ p.sizes.length = k ∧ p.Names k := by
  have hlen := length_make k
  have h := (ranked_make hk).names
  have hnames := ((ranked_make hk).foldl_apply ops).names
  rw [length_foldl_apply, hlen] at hnames
  exact ⟨_, foldlM_applyChecked h.inRange (by rwa [hlen]), by rw [length_foldl_apply, hlen], hnames⟩

/-- A load that wraps around to 4. -/
theorem operations_name_wrapped : ∃ p,
    [.set 0 (2 ^ 64 - 1), .inc 1 5, .inc 0 5].foldlM applyChecked (make 2) = .ok p ∧
      p.sizes.length = 2 ∧ p.Names 2 :=
  operations_name (by decide) (by decide)

end Checked

section Resize

/-- The indices of a balancer for `m` name what they should, and no operation on its entries makes
an access outside. -/
structure Usable (m : ℕ) (p : Priority) : Prop where
  names : p.Names m
  inside : ∀ ops : List Operation, (∀ op ∈ ops, op.index < m) →
    ∃ p', ops.foldlM applyChecked p = .ok p'

theorem Names.usable (h : p.Names m) (hm : p.sizes.length = m) : p.Usable m where
  names := h
  inside ops hops := by
    subst hm
    exact ⟨_, foldlM_applyChecked h.inRange hops⟩

theorem Ranked.names_setMaxCount (h : p.Ranked) (m : ℕ) :
    (p.setMaxCount m).Names m ↔
      if m ≤ p.sizes.length then p.nextIndex < m ∧ p.maxIndex < m else p.load p.nextIndex = 0 := by
  have hmin := h.least.range
  have hmax := h.range
  split_ifs with hm
  · -- what is left of the vector keeps its loads
    have hload : ∀ j < m, (p.setMaxCount m).load j = p.load j := fun j hj => by
      rw [load_setMaxCount, if_pos hj]
    refine ⟨fun hn => ⟨hn.next, hn.max⟩, fun ⟨hnext, hgreatest⟩ => ⟨hnext, hgreatest, ?_, ?_⟩⟩
    · intro j hj
      rw [hload j hj]
      exact (hload _ hnext).trans_le (h.least.le j (hj.trans_le hm))
    · intro j hj
      rw [hload j hj]
      exact (h.ge j (hj.trans_le hm)).trans_eq (hload _ hgreatest).symm
  · have hlt : p.sizes.length < m := not_le.mp hm
    have hnext : (p.setMaxCount m).load p.minIdx = p.load p.minIdx := by
      rw [load_setMaxCount, if_pos (hmin.trans hlt)]
    have hgreatest : (p.setMaxCount m).load p.maxIdx = p.load p.maxIdx := by
      rw [load_setMaxCount, if_pos (hmax.trans hlt)]
    have hnew : (p.setMaxCount m).load p.sizes.length = 0 := by
      rw [load_setMaxCount, if_pos hlt, load, List.getD, List.getElem?_eq_none le_rfl]
      rfl
    refine ⟨fun hn => ?_, fun h0 => ?_⟩
    · have hle := hn.le p.sizes.length hlt
      rw [hnew] at hle
      exact hnext.symm.trans (Nat.le_zero.mp hle)
    · refine ⟨hmin.trans hlt, hmax.trans hlt, fun j _ => ?_, fun j hj => ?_⟩
      · exact (hnext.trans h0).trans_le (Nat.zero_le _)
      · refine le_of_le_of_eq ?_ hgreatest.symm
        rw [load_setMaxCount, if_pos hj]
        by_cases hold : j < p.sizes.length
        · exact h.ge j hold
        · rw [load, List.getD, List.getElem?_eq_none (not_lt.mp hold)]
          exact Nat.zero_le _

/-- `p` comes of operations on the entries of a balancer for `k`. -/
def Reached (k : ℕ) (p : Priority) : Prop :=
  ∃ ops : List Operation, (∀ op ∈ ops, op.index < k) ∧ p = ops.foldl Priority.apply (make k)

theorem Reached.length (h : Reached k p) : p.sizes.length = k := by
  obtain ⟨ops, -, rfl⟩ := h
  rw [length_foldl_apply, length_make]

theorem Reached.empty (h : Reached 0 p) : p = make 0 := by
  obtain ⟨_ | ⟨op, ops⟩, hops, rfl⟩ := h
  · rfl
  · exact absurd (hops op List.mem_cons_self) (Nat.not_lt_zero _)

theorem Reached.ranked (h : Reached k p) (hk : 0 < k) : p.Ranked := by
  obtain ⟨ops, -, rfl⟩ := h
  exact (ranked_make hk).foldl_apply ops

/-- **A resized balancer is usable** if and only if it shrinks to a size that has the entries of
both its indices, or grows and the least load is 0. -/
theorem setMaxCount_usable (hr : Reached k p) (hm : 0 < m) :
    (p.setMaxCount m).Usable m ↔
      if m ≤ k then p.nextIndex < m ∧ p.maxIndex < m else p.load p.nextIndex = 0 := by
  have hlen := length_setMaxCount p m
  rcases Nat.eq_zero_or_pos k with rfl | hk
  · have hmake : (make 0).setMaxCount m = make m := by simp [make, setMaxCount]
    have hnames := (ranked_make hm).names
    rw [length_make] at hnames
    rw [if_neg (not_le.mpr hm), hr.empty, hmake]
    exact iff_of_true (hnames.usable (length_make m)) rfl
  · have hnames := (hr.ranked hk).names_setMaxCount m
    rw [hr.length] at hnames
    rw [← hnames]
    exact ⟨Usable.names, fun h => h.usable hlen⟩

/-- Two entries of which the second has no load, and a third. -/
theorem setMaxCount_usable_grown :
    (((make 2).apply (.inc 0 5)).setMaxCount 3).Usable 3 ↔
      if 3 ≤ 2 then ((make 2).apply (.inc 0 5)).nextIndex < 3 ∧ ((make 2).apply (.inc 0 5)).maxIndex < 3
      else ((make 2).apply (.inc 0 5)).load ((make 2).apply (.inc 0 5)).nextIndex = 0 :=
  setMaxCount_usable ⟨[.inc 0 5], by decide, rfl⟩ (by decide)

/-- Two entries with a load, and a third: `nextIndex` still names one of the two. -/
theorem setMaxCount_unusable :
    ¬∀ (k m : ℕ) (p : Priority), 0 < k → 0 < m → Reached k p → (p.setMaxCount m).Usable m := by
  intro h
  have hu := h 2 3 _ (by decide) (by decide) ⟨[.inc 0 5, .inc 1 5], by decide, rfl⟩
  exact absurd (hu.names.le 2 (by decide)) (by decide)

end Resize

end PollServer.Priority
