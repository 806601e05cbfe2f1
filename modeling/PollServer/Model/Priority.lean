import PollServer.Model.Buffer

/-! `balancer::priority`, the vector of loads by which a protocol is chosen. -/

namespace PollServer

structure Priority where
  sizes : List ℕ
  minIdx : ℕ
  maxIdx : ℕ
  deriving DecidableEq

namespace Priority

variable (p : Priority)

def make (maxSize : ℕ) : Priority := ⟨List.replicate maxSize 0, 0, 0⟩

/-- `operator[]`. -/
def load (index : ℕ) : ℕ := p.sizes.getD index 0

def nextIndex : ℕ := p.minIdx

def maxIndex : ℕ := p.maxIdx

/-- One turn of the loop of `setMinMaxIdx`. -/
def trackMinMax (p : Priority) (i : ℕ) : Priority :=
  let p := if p.load i = 0 ∨ p.load i < p.load p.minIdx then { p with minIdx := i } else p
  if p.load p.maxIdx < p.load i then { p with maxIdx := i } else p

def setMinMaxIdx : Priority := (List.range p.sizes.length).foldl trackMinMax p

def incPriority (index amount : ℕ) : Priority :=
  setMinMaxIdx { p with sizes := p.sizes.modify index (addSize · amount) }

def decPriority (index amount : ℕ) : Priority :=
  if amount ≤ p.load index then
    setMinMaxIdx { p with sizes := p.sizes.modify index (· - amount) }
  else p

def setPriority (index value : ℕ) : Priority := setMinMaxIdx { p with sizes := p.sizes.set index value }

/-- `MaxCount` with a new one. -/
def setMaxCount (maxCount : ℕ) : Priority :=
  { p with sizes := p.sizes.take maxCount ++ List.replicate (maxCount - p.sizes.length) 0 }

@[simp] theorem sizes_trackMinMax (i : ℕ) : (p.trackMinMax i).sizes = p.sizes := by
  simp only [trackMinMax]
  split_ifs <;> rfl

@[simp] theorem sizes_setMinMaxIdx : p.setMinMaxIdx.sizes = p.sizes := by
  have h : ∀ (l : List ℕ) (p : Priority), (l.foldl trackMinMax p).sizes = p.sizes := by
    intro l
    induction l with
    | nil => exact fun p => rfl
    | cons i l ih => exact fun p => (ih _).trans (p.sizes_trackMinMax i)
  exact h _ p

@[simp] theorem length_make (maxSize : ℕ) : (make maxSize).sizes.length = maxSize :=
  List.length_replicate

@[simp] theorem load_make (maxSize index : ℕ) : (make maxSize).load index = 0 := by
  rw [load, make, List.getD, List.getElem?_replicate]
  split_ifs <;> rfl

@[simp] theorem length_incPriority (index amount : ℕ) :
    (p.incPriority index amount).sizes.length = p.sizes.length := by
  simp [incPriority]

@[simp] theorem length_decPriority (index amount : ℕ) :
    (p.decPriority index amount).sizes.length = p.sizes.length := by
  unfold decPriority
  split_ifs <;> simp

@[simp] theorem length_setPriority (index value : ℕ) :
    (p.setPriority index value).sizes.length = p.sizes.length := by
  simp [setPriority]

@[simp] theorem length_setMaxCount (maxCount : ℕ) :
    (p.setMaxCount maxCount).sizes.length = maxCount := by
  rw [setMaxCount, List.length_append, List.length_take, List.length_replicate]
  omega

/-- What is dropped is gone, and what is new is 0. -/
theorem load_setMaxCount (maxCount i : ℕ) :
    (p.setMaxCount maxCount).load i = if i < maxCount then p.load i else 0 := by
  simp only [load, setMaxCount, List.getD, List.getElem?_append, List.length_take,
    List.getElem?_take, List.getElem?_replicate]
  by_cases hl : i < p.sizes.length
  · split_ifs <;> first | rfl | omega
  · rw [List.getElem?_eq_none (not_lt.mp hl)]
    split_ifs <;> rfl

theorem load_modify {p : Priority} {index : ℕ} (h : index < p.sizes.length) (f : ℕ → ℕ) (i : ℕ) :
    (p.sizes.modify index f).getD i 0 = if i = index then f (p.load i) else p.load i := by
  by_cases hi : i = index
  · subst hi
    simp [load, List.getD, h]
  · simp [load, List.getD, hi, Ne.symm hi]

variable {p} {index : ℕ}

theorem load_incPriority (h : index < p.sizes.length) (amount i : ℕ) :
    (p.incPriority index amount).load i =
      if i = index then addSize (p.load i) amount else p.load i := by
  rw [incPriority, load, sizes_setMinMaxIdx]
  exact load_modify h _ i

theorem load_decPriority (h : index < p.sizes.length) (amount i : ℕ) :
    (p.decPriority index amount).load i =
      if i = index ∧ amount ≤ p.load i then p.load i - amount else p.load i := by
  unfold decPriority
  by_cases hs : amount ≤ p.load index
  · rw [if_pos hs, load, sizes_setMinMaxIdx]
    rw [load_modify h]
    by_cases hi : i = index
    · subst hi
      simp [hs]
    · simp [hi]
  · rw [if_neg hs, if_neg]
    rintro ⟨rfl, h'⟩
    exact hs h'

end Priority

end PollServer
