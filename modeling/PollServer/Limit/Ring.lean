import PollServer.Model.ClientInfo

/-! `queue` holds the most recent of the values that were added to it. -/

namespace PollServer.Queue

variable {T : Type} [Inhabited T] {q : Queue T} {n : ℕ} {l : List T}

/-- The queue after `l` was added to an empty one for `n` values: the value at place `i`
of `l` is at `i % n`, until the `n` values behind it are there. -/
structure Holds (q : Queue T) (n : ℕ) (l : List T) : Prop where
  maxCount : q.maxCount = n
  length : q.items.length = n
  front : q.front = if l = [] then -1 else (((l.length - n) % n : ℕ) : ℤ)
  rear : q.rear = if l = [] then -1 else (((l.length - 1) % n : ℕ) : ℤ)
  item : ∀ i v, l[i]? = some v → l.length ≤ i + n → q.items.getD (i % n) default = v

/-- The same of a queue that may have more places than it uses. -/
structure Keeps (q : Queue T) (n : ℕ) (l : List T) : Prop where
  maxCount : q.maxCount = n
  length : n ≤ q.items.length
  front : q.front = if l = [] then -1 else (((l.length - n) % n : ℕ) : ℤ)
  rear : q.rear = if l = [] then -1 else (((l.length - 1) % n : ℕ) : ℤ)
  item : ∀ i v, l[i]? = some v → l.length ≤ i + n → q.items.getD (i % n) default = v

theorem Holds.keeps (h : q.Holds n l) : q.Keeps n l :=
  ⟨h.maxCount, h.length.ge, h.front, h.rear, h.item⟩

theorem holds_make (n : ℕ) : (make n : Queue T).Holds n [] :=
  ⟨rfl, List.length_replicate, rfl, rfl, fun i v h => by simp at h⟩

theorem tmod_succ (a n : ℕ) : (((a % n : ℕ) : ℤ) + 1).tmod n = (((a + 1) % n : ℕ) : ℤ) := by
  have h : ((a % n : ℕ) : ℤ) + 1 = ((a % n + 1 : ℕ) : ℤ) := by push_cast; rfl
  rw [h, ← Int.ofNat_tmod, Nat.mod_add_mod]

theorem mod_ne {i k n : ℕ} (hik : i < k) (hk : k < i + n) : i % n ≠ k % n := by
  intro h
  have hd : n ∣ k - i := (Nat.modEq_iff_dvd' hik.le).mp h
  have := Nat.le_of_dvd (by omega) hd
  omega

/-- The index behind the rear one is the front one once `n` values are there. -/
theorem Keeps.isFull_iff (hn : 0 < n) (h : q.Keeps n l) : q.isFull = true ↔ n ≤ l.length := by
  have hspec : q.isFull = true ↔
      (q.front = 0 ∧ q.rear = q.maxCount - 1) ∨ q.front = q.rear + 1 := by
    simp [isFull]
  rw [hspec, h.front, h.rear, h.maxCount]
  by_cases hl : l = []
  · simp only [hl, if_pos, List.length_nil]
    omega
  have hpos := List.length_pos_iff.mpr hl
  simp only [if_neg hl]
  by_cases hk : n ≤ l.length
  · have hf : (l.length - n) % n = l.length % n := (Nat.mod_eq_sub_mod hk).symm
    have hr : ((l.length - 1) % n + 1) % n = l.length % n := by
      rw [Nat.mod_add_mod, Nat.sub_add_cancel hpos]
    have hlt := Nat.mod_lt (l.length - 1) hn
    rw [hf, ← hr]
    rcases (show (l.length - 1) % n + 1 ≤ n by omega).lt_or_eq with hlt' | heq
    · rw [Nat.mod_eq_of_lt hlt']
      simp only [hk, iff_true]
      right
      push_cast
      rfl
    · rw [heq, Nat.mod_self]
      simp only [hk, iff_true]
      left
      omega
  · rw [show l.length - n = 0 by omega, Nat.zero_mod, Nat.mod_eq_of_lt (by omega)]
    omega

theorem isFull_iff (hn : 0 < n) (h : q.Holds n l) : q.isFull = true ↔ n ≤ l.length :=
  h.keeps.isFull_iff hn

theorem Keeps.add (hn : 0 < n) (h : q.Keeps n l) (value : T) : (q.add value).Keeps n (l ++ [value]) := by
  have hne : l ++ [value] ≠ [] := by simp
  have hlen : (l ++ [value]).length = l.length + 1 := by simp
  have hrear : (q.rear + 1).tmod q.maxCount = ((l.length % n : ℕ) : ℤ) := by
    rw [h.rear, h.maxCount]
    by_cases hl : l = []
    · rw [if_pos hl, hl]
      simp
    · rw [if_neg hl, tmod_succ, Nat.sub_add_cancel (List.length_pos_iff.mpr hl)]
  refine ⟨h.maxCount, ?_, ?_, ?_, ?_⟩
  · simpa [Queue.add] using h.length
  · rw [if_neg hne, hlen]
    simp only [Queue.add]
    by_cases hf : q.isFull = true
    · have hk := (h.isFull_iff hn).mp hf
      have hl : l ≠ [] := by
        rintro rfl
        simp at hk
        omega
      rw [if_pos hf, h.front, if_neg hl, h.maxCount, tmod_succ,
        show l.length - n + 1 = l.length + 1 - n by omega, if_neg (by omega)]
    · have hk : ¬n ≤ l.length := fun hk => hf ((h.isFull_iff hn).mpr hk)
      rw [if_neg hf, h.front, show l.length + 1 - n = 0 by omega, Nat.zero_mod]
      split_ifs with h1 h2
      · rfl
      · exact absurd rfl h2
      · omega
      · rw [show l.length - n = 0 by omega, Nat.zero_mod]
  · rw [if_neg hne, hlen, Nat.add_sub_cancel]
    exact hrear
  · intro i v hi hk
    rw [hlen] at hk
    have hlt : i < l.length + 1 := by
      have := (List.getElem?_eq_some_iff.mp hi).1
      omega
    simp only [Queue.add, hrear, Int.toNat_natCast]
    rcases Nat.lt_succ_iff_lt_or_eq.mp hlt with hlt | rfl
    · rw [List.getElem?_append_left hlt] at hi
      have hset := h.item i v hi (by omega)
      rwa [List.getD, List.getElem?_set_ne (mod_ne hlt (by omega)).symm]
    · simp only [List.getElem?_concat_length, Option.some.injEq] at hi
      rw [List.getD, List.getElem?_set_self ((Nat.mod_lt _ hn).trans_le h.length), hi]
      rfl

theorem Holds.add (hn : 0 < n) (h : q.Holds n l) (value : T) : (q.add value).Holds n (l ++ [value]) :=
  have hadd := h.keeps.add hn value
  ⟨hadd.maxCount, by simp [Queue.add, h.length], hadd.front, hadd.rear, hadd.item⟩

theorem Keeps.first (h : q.Keeps n l) {v : T} (hv : l[l.length - n]? = some v) : q.first = v := by
  have hne : l ≠ [] := by
    rintro rfl
    simp at hv
  rw [Queue.first, h.front, if_neg hne, Int.toNat_natCast]
  exact h.item _ v hv (by omega)

theorem Holds.first (h : q.Holds n l) {v : T} (hv : l[l.length - n]? = some v) : q.first = v :=
  h.keeps.first hv

theorem Keeps.last (hn : 0 < n) (h : q.Keeps n l) {v : T} (hv : l.getLast? = some v) :
    q.last = v := by
  have hne : l ≠ [] := by
    rintro rfl
    simp at hv
  rw [Queue.last, h.rear, if_neg hne, Int.toNat_natCast]
  exact h.item _ v (by rw [← List.getLast?_eq_getElem?]; exact hv) (by omega)

theorem Holds.last (hn : 0 < n) (h : q.Holds n l) {v : T} (hv : l.getLast? = some v) :
    q.last = v := h.keeps.last hn hv

/-- **The ring buffer after any values is what they leave of it.** -/
theorem holds_foldl (hn : 0 < n) (l : List T) : (l.foldl add (make n)).Holds n l := by
  induction l using List.reverseRecOn with
  | nil => exact holds_make n
  | append_singleton l v ih =>
    rw [List.foldl_append]
    exact ih.add hn v

end PollServer.Queue
