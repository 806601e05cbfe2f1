import PollServer.Lib.Recent
import PollServer.Limit.Ring

/-! `MaxCount` of the ring buffer. A queue that has not wrapped is resized in place; one that
has is copied without its last value, and a smaller limit leaves the indices where they
were. -/

namespace PollServer.Queue

open Lib

variable {T : Type} [Inhabited T] {q : Queue T} {n m : ℕ} {l : List T}

def count (q : Queue T) : ℕ :=
  if q.front = -1 then 0 else ((q.rear - q.front) % q.maxCount).toNat + 1

/-- The values from the front to the rear index, around the end of the vector. -/
def contents (q : Queue T) : List T :=
  (List.range q.count).map fun i : ℕ => q.items.getD ((q.front + i) % q.maxCount).toNat default

/-- Going one place back from `k`, around the end. -/
theorem pred_mod_cases {k : ℕ} (hn : 0 < n) (hk : 0 < k) :
    (k % n = 0 ∧ (k - 1) % n = n - 1) ∨ k % n = (k - 1) % n + 1 := by
  have hsucc : ((k - 1) % n + 1) % n = k % n := by rw [Nat.mod_add_mod, Nat.sub_add_cancel hk]
  have hlt := Nat.mod_lt (k - 1) hn
  rcases (show (k - 1) % n + 1 ≤ n by omega).lt_or_eq with h | h
  · right
    rw [← hsucc, Nat.mod_eq_of_lt h]
  · left
    rw [h, Nat.mod_self] at hsucc
    omega

theorem Keeps.count_eq (hn : 0 < n) (h : q.Keeps n l) : q.count = (l.rtake n).length := by
  rw [length_rtake, count, h.front]
  by_cases hl : l = []
  · simp [hl]
  have hpos := List.length_pos_iff.mpr hl
  rw [if_neg hl, if_neg (by omega), h.rear, if_neg hl, h.maxCount]
  by_cases hk : l.length ≤ n
  · rw [Nat.sub_eq_zero_of_le hk, Nat.zero_mod, Nat.mod_eq_of_lt (by omega), Nat.cast_zero, sub_zero,
      Int.emod_eq_of_lt (by omega) (by omega)]
    omega
  · rw [← Nat.mod_eq_sub_mod (by omega)]
    rcases pred_mod_cases hn hpos with ⟨h0, h1⟩ | h1
    · rw [h0, h1, Nat.cast_zero, sub_zero, Int.emod_eq_of_lt (by omega) (by omega)]
      omega
    · have hback : (((l.length - 1) % n : ℕ) : ℤ) - ((l.length % n : ℕ) : ℤ) = -1 := by
        rw [h1]
        push_cast
        ring
      rw [hback, ← Int.add_emod_right, Int.emod_eq_of_lt (by omega) (by omega)]
      omega

theorem Keeps.place (h : q.Keeps n l) (hl : l ≠ []) (i : ℕ) :
    ((q.front + i) % q.maxCount).toNat = (l.length - n + i) % n := by
  rw [h.front, if_neg hl, h.maxCount, ← Nat.cast_add, ← Int.natCast_emod, Int.toNat_natCast,
    Nat.mod_add_mod]

/-- **A queue shows the last of the values that were added to it.** -/
theorem Keeps.contents (hn : 0 < n) (h : q.Keeps n l) : q.contents = l.rtake n := by
  have hcount := h.count_eq hn
  apply List.ext_getElem
  · rw [Queue.contents, List.length_map, List.length_range, hcount]
  · intro i hi hi'
    have hl : l ≠ [] := by
      rintro rfl
      simp [List.rtake] at hi'
    have hlen := length_rtake n l
    have hget : l[l.length - n + i]? = some (l.rtake n)[i] := by
      rw [← List.getElem?_drop]
      exact List.getElem?_eq_getElem hi'
    simp only [Queue.contents, List.getElem_map, List.getElem_range]
    rw [h.place hl]
    exact h.item _ _ hget (by omega)

theorem Keeps.foldl (hn : 0 < n) (h : q.Keeps n l) (more : List T) :
    (more.foldl Queue.add q).Keeps n (l ++ more) := by
  induction more generalizing q l with
  | nil => rwa [List.append_nil]
  | cons v more ih =>
    have hrest := ih (h.add hn v)
    rwa [List.append_assoc] at hrest

section Grow

/-- The indices have wrapped exactly when the front one is the larger one. -/
theorem Holds.wrapped_iff (hn : 0 < n) (h : q.Holds n l) :
    q.rear < q.front ↔ ¬(l.length ≤ n ∨ n ∣ l.length) := by
  rw [h.front, h.rear, Nat.dvd_iff_mod_eq_zero]
  by_cases hl : l = []
  · simp [hl]
  have hpos := List.length_pos_iff.mpr hl
  rw [if_neg hl, if_neg hl]
  by_cases hk : l.length ≤ n
  · rw [Nat.sub_eq_zero_of_le hk, Nat.zero_mod]
    omega
  · rw [← Nat.mod_eq_sub_mod (by omega)]
    rcases pred_mod_cases hn hpos with ⟨h0, h1⟩ | h1 <;> omega

theorem length_resize (items : List T) (size : ℕ) : (resize items size).length = size := by
  rw [resize, List.length_append, List.length_take, List.length_replicate]
  omega

theorem getD_resize {items : List T} {size i : ℕ} (hi : i < items.length) (hs : i < size) :
    (resize items size).getD i default = items.getD i default := by
  rw [resize, List.getD, List.getD, List.getElem?_append_left (by rw [List.length_take]; omega),
    List.getElem?_take_of_lt hs]

/-- What is owed to the values of a queue for `n` when it becomes one for `m`. -/
structure Grown (n m : ℕ) (l : List T) (q q' : Queue T) : Prop where
  contents : q.contents = l.rtake n ∧ q'.contents = l.rtake n
  ends : l ≠ [] → q'.first = q.first ∧ q'.last = q.last
  room : q'.isFull = false
  later : ∀ more : List T,
    (more.foldl add q').contents = (l.rtake n ++ more).rtake m ∧
      ((more.foldl add q').isFull = true ↔ m ≤ (l.rtake n).length + more.length)

theorem Holds.grow (hm : n < m) (hn : 0 < n) (h : q.Holds n l) (hw : ¬q.rear < q.front) :
    (q.setMaxCount m).Keeps m (l.rtake n) := by
  have hq : q.setMaxCount m = { q with items := resize q.items m, maxCount := m } := by
    rw [setMaxCount, if_pos (by rw [h.maxCount]; exact_mod_cast hm), if_neg hw, Int.toNat_natCast]
  have hlen := length_rtake n l
  have hflat : l.length ≤ n ∨ n ∣ l.length := by
    by_contra hc
    exact hw ((h.wrapped_iff hn).mpr hc)
  have hfront : (l.length - n) % n = 0 := by
    rcases hflat with hk | hk
    · rw [Nat.sub_eq_zero_of_le hk, Nat.zero_mod]
    · exact Nat.mod_eq_zero_of_dvd (Nat.dvd_sub hk dvd_rfl)
  rw [hq]
  by_cases hl : l = []
  · subst hl
    rw [List.rtake_nil]
    exact ⟨rfl, (length_resize _ _).ge, by simp [h.front], by simp [h.rear], fun i v hi => by simp at hi⟩
  have hpos := List.length_pos_iff.mpr hl
  have hne : l.rtake n ≠ [] := by
    rw [← List.length_pos_iff]
    omega
  refine ⟨rfl, (length_resize _ _).ge, ?_, ?_, fun i v hi _ => ?_⟩
  · rw [h.front, if_neg hl, if_neg hne, hfront, Nat.sub_eq_zero_of_le (by omega), Nat.zero_mod]
  · rw [h.rear, if_neg hl, if_neg hne, Nat.mod_eq_of_lt (show (l.rtake n).length - 1 < m by omega)]
    rcases hflat with hk | hk
    · rw [Nat.mod_eq_of_lt (by omega)]
      omega
    · rcases pred_mod_cases hn hpos with ⟨h0, h1⟩ | h1
      · have := Nat.le_of_dvd hpos hk
        omega
      · have := Nat.mod_eq_zero_of_dvd hk
        omega
  · have hilt : i < (l.rtake n).length := (List.getElem?_eq_some_iff.mp hi).1
    rw [List.rtake, List.getElem?_drop] at hi
    have hitem := h.item _ v hi (by omega)
    have hplace : (l.length - n + i) % n = i := by
      rw [Nat.add_mod, hfront, Nat.zero_add, Nat.mod_mod, Nat.mod_eq_of_lt (by omega)]
    rw [hplace] at hitem
    rw [Nat.mod_eq_of_lt (show i < m by omega)]
    dsimp only
    rw [getD_resize (by rw [h.length]; omega) (by omega), hitem]

/-- The copy loop stops in front of the last value. -/
theorem Holds.copyFrom_eq (hn : 0 < n) (h : q.Holds n l) (hk : n ≤ l.length) {i fuel : ℕ}
    (hi : i < n) (hf : n ≤ fuel + i) :
    q.copyFrom fuel (((l.length - n + i) % n : ℕ) : ℤ) = ((l.rtake n).drop i).dropLast := by
  induction fuel generalizing i with
  | zero => omega
  | succ fuel ih =>
    have hl : l ≠ [] := by
      rintro rfl
      simp at hk
      omega
    have hlen := length_rtake n l
    have hdrop : (l.rtake n).drop i = (l.rtake n)[i] :: (l.rtake n).drop (i + 1) :=
      List.drop_eq_getElem_cons (by omega)
    rw [copyFrom, h.rear, if_neg hl]
    by_cases hlast : i + 1 = n
    · rw [if_pos (by rw [show l.length - n + i = l.length - 1 by omega]), hdrop,
        List.drop_of_length_le (show (l.rtake n).length ≤ i + 1 by omega)]
      rfl
    · have hne : (l.length - n + i) % n ≠ (l.length - 1) % n := mod_ne (by omega) (by omega)
      have hrest : (l.rtake n).drop (i + 1) ≠ [] := by
        rw [← List.length_pos_iff, List.length_drop]
        omega
      have hget : l[l.length - n + i]? = some (l.rtake n)[i] := by
        rw [← List.getElem?_drop]
        exact List.getElem?_eq_getElem (show i < (l.rtake n).length by omega)
      have hitem := h.item _ _ hget (by omega)
      rw [if_neg (by exact_mod_cast hne), h.maxCount, tmod_succ, Int.toNat_natCast, hitem, hdrop,
        List.dropLast_cons_of_ne_nil hrest, Nat.add_assoc, ih (by omega) (by omega)]

theorem map_getD_range {items : List T} {k : ℕ} (hk : k ≤ items.length) :
    ((List.range k).map fun i => items.getD i default) = items.take k := by
  apply List.ext_getElem
  · simp [hk]
  · intro i hi hi'
    have hlt : i < items.length := by
      rw [List.length_take] at hi'
      omega
    simp [List.getElem?_eq_getElem hlt]

/-- **A queue that has wrapped loses its last value**, and shows two that were never added. -/
theorem Holds.grow_wrapped (hm : n < m) (hn : 0 < n) (h : q.Holds n l) (hw : q.rear < q.front) :
    (q.setMaxCount m).contents = (l.rtake n).dropLast ++ [default, default] := by
  have hk : n < l.length := by
    by_contra hk
    exact (h.wrapped_iff hn).mp hw (Or.inl (by omega))
  have hlen := length_rtake n l
  have htemp : q.copyFrom q.items.length q.front = (l.rtake n).dropLast := by
    have hcopy := h.copyFrom_eq hn hk.le hn (show n ≤ q.items.length + 0 by rw [h.length]; omega)
    rwa [Nat.add_zero, List.drop_zero, show (((l.length - n) % n : ℕ) : ℤ) = q.front by
      rw [h.front, if_neg (List.length_pos_iff.mp (by omega))]] at hcopy
  have hq : q.setMaxCount m =
      ⟨(l.rtake n).dropLast ++ List.replicate (m - (n - 1)) default, 0, n, m⟩ := by
    have htlen : (l.rtake n).dropLast.length = n - 1 := by
      rw [List.length_dropLast]
      omega
    rw [setMaxCount, if_pos (by rw [h.maxCount]; exact_mod_cast hm), if_pos hw, htemp, h.maxCount]
    dsimp only
    rw [htlen, Int.toNat_natCast]
  have hroom : List.replicate (m - (n - 1)) (default : T) =
      [default, default] ++ List.replicate (m - (n - 1) - 2) default := by
    rw [show m - (n - 1) = 2 + (m - (n - 1) - 2) by omega, List.replicate_add]
    simp [List.replicate]
  have hplace : ∀ i < n + 1, ((0 + (i : ℤ)) % m).toNat = i := by
    intro i hi
    rw [Int.zero_add, Int.emod_eq_of_lt (by omega) (by omega), Int.toNat_natCast]
  have hcount : count (⟨(l.rtake n).dropLast ++ List.replicate (m - (n - 1)) default, 0, n, m⟩ :
      Queue T) = n + 1 := by
    unfold count
    dsimp only
    rw [if_neg (by omega), sub_zero, Int.emod_eq_of_lt (by omega) (by exact_mod_cast hm),
      Int.toNat_natCast]
  rw [hq, contents, hcount]
  dsimp only
  rw [List.map_congr_left fun i hi => by rw [hplace i (List.mem_range.mp hi)], map_getD_range, hroom,
    ← List.append_assoc, List.take_left']
  · rw [List.length_append, List.length_dropLast]
    simp
    omega
  · rw [List.length_append, List.length_dropLast, List.length_replicate]
    omega

/-- **Growing loses nothing** if and only if the queue has not wrapped, or stands where it
would wrap next. -/
theorem setMaxCount_grown (hn : 0 < n) (hm : n < m) (l : List T) :
    Grown n m l (l.foldl add (make n)) ((l.foldl add (make n)).setMaxCount m) ↔
      l.length ≤ n ∨ n ∣ l.length := by
  have h := holds_foldl hn l
  set q := l.foldl add (make n)
  have hm0 : 0 < m := hn.trans hm
  have hlen := length_rtake n l
  constructor
  · intro hg
    by_contra hw
    have hlength := congrArg List.length (h.grow_wrapped hm hn ((h.wrapped_iff hn).mpr hw))
    rw [hg.contents.2, List.length_append, List.length_dropLast] at hlength
    simp only [List.length_cons, List.length_nil] at hlength
    omega
  · intro hflat
    have hw : ¬q.rear < q.front := fun hw => (h.wrapped_iff hn).mp hw hflat
    have hk := h.grow hm hn hw
    refine ⟨⟨h.keeps.contents hn, ?_⟩, fun hl => ?_, ?_, fun more => ?_⟩
    · rw [hk.contents hm0, List.rtake, Nat.sub_eq_zero_of_le (by omega), List.drop_zero]
    · have hne : l.rtake n ≠ [] := by
        have := List.length_pos_iff.mpr hl
        rw [← List.length_pos_iff]
        omega
      constructor
      · obtain ⟨v, hv⟩ : ∃ v, (l.rtake n).head? = some v := ⟨_, List.head?_eq_some_head hne⟩
        have hv' : (l.rtake n)[(l.rtake n).length - m]? = some v := by
          rwa [Nat.sub_eq_zero_of_le (by omega), ← List.head?_eq_getElem?]
        rw [head?_rtake] at hv
        rw [hk.first hv', h.first hv]
      · obtain ⟨v, hv⟩ : ∃ v, (l.rtake n).getLast? = some v := ⟨_, List.getLast?_eq_some_getLast hne⟩
        rw [hk.last hm0 hv]
        rw [getLast?_rtake hn] at hv
        exact (h.last hn hv).symm
    · rw [Bool.eq_false_iff, Ne, hk.isFull_iff hm0]
      omega
    · have hmore := hk.foldl hm0 more
      refine ⟨hmore.contents hm0, ?_⟩
      rw [hmore.isFull_iff hm0, List.length_append]

/-- A queue for two values that has not wrapped, and grows to four. -/
theorem setMaxCount_grown_two :
    Grown 2 4 [1, 2] ([1, 2].foldl add (make 2)) (([1, 2].foldl add (make 2)).setMaxCount 4) ↔
      [1, 2].length ≤ 2 ∨ 2 ∣ [1, 2].length :=
  setMaxCount_grown (by decide) (by decide) [1, 2]

/-- With 2 and 3 in a queue for two, growth leaves 2 and two zeros. -/
theorem setMaxCount_loses :
    ¬∀ (n m : ℕ) (l : List ℕ), 0 < n → n < m →
      Grown n m l (l.foldl add (make n)) ((l.foldl add (make n)).setMaxCount m) := by
  intro h
  exact absurd (h 2 3 [1, 2, 3] (by decide) (by decide)).contents.2 (by decide)

end Grow

section Shrink

/-- What is owed to a queue for `m` values in place of the one that `l` was added to. -/
structure Shrunk (m : ℕ) (l : List T) (q' : Queue T) : Prop where
  full : ∀ more : List T, (more.foldl add q').isFull = true ↔ m ≤ (l ++ more).length
  first : ∀ more : List T, m ≤ (l ++ more).length →
    (l ++ more)[(l ++ more).length - m]? = some (more.foldl add q').first
  last : ∀ (more : List T) (v : T), (l ++ more).getLast? = some v → (more.foldl add q').last = v
  inside : ∀ more : List T, (more.foldl add q').front < m ∧ (more.foldl add q').rear < m

theorem Keeps.inside (hm : 0 < m) (h : q.Keeps m l) : q.front < m ∧ q.rear < m := by
  have hfront := Nat.mod_lt (l.length - m) hm
  have hrear := Nat.mod_lt (l.length - 1) hm
  rw [h.front, h.rear]
  by_cases hl : l = []
  · simp [hl]
    omega
  · rw [if_neg hl, if_neg hl]
    omega

theorem Keeps.shrunk {l' : List T} (hm : 0 < m) (h : q.Keeps m l') (hl : l'.rtake m = l.rtake m) :
    Shrunk m l q := by
  have hmore : ∀ more, (l' ++ more).rtake m = (l ++ more).rtake m := by
    intro more
    rw [← rtake_append_rtake, hl, rtake_append_rtake]
  refine ⟨fun more => ?_, fun more hk => ?_, fun more v hv => ?_, fun more => ?_⟩
  · rw [(h.foldl hm more).isFull_iff hm]
    exact le_length_of_rtake (hmore more)
  · obtain ⟨v, hv⟩ : ∃ v, (l ++ more)[(l ++ more).length - m]? = some v :=
      ⟨_, List.getElem?_eq_getElem (by omega)⟩
    have hv' := hv
    rw [← head?_rtake, ← hmore, head?_rtake] at hv'
    rw [(h.foldl hm more).first hv', hv]
  · rw [← getLast?_rtake hm, ← hmore, getLast?_rtake hm] at hv
    exact (h.foldl hm more).last hm hv
  · exact (h.foldl hm more).inside hm

theorem setMaxCount_of_le (h : q.Holds n l) (hm : m ≤ n) :
    q.setMaxCount m = { q with maxCount := m } := by
  rw [setMaxCount, if_neg (by rw [h.maxCount]; omega)]

theorem Holds.shrink (hmn : m < n) (h : q.Holds n l) (hk : l.length ≤ m) :
    (q.setMaxCount m).Keeps m l := by
  rw [setMaxCount_of_le h hmn.le]
  refine ⟨rfl, by rw [h.length]; exact hmn.le, ?_, ?_, fun i v hi _ => ?_⟩
  · rw [h.front, Nat.sub_eq_zero_of_le hk, Nat.sub_eq_zero_of_le (by omega), Nat.zero_mod, Nat.zero_mod]
  · rw [h.rear]
    by_cases hl : l = []
    · rw [if_pos hl, if_pos hl]
    · have := List.length_pos_iff.mpr hl
      rw [if_neg hl, if_neg hl, Nat.mod_eq_of_lt (by omega), Nat.mod_eq_of_lt (by omega)]
  · have hilt : i < l.length := (List.getElem?_eq_some_iff.mp hi).1
    have hitem := h.item i v hi (by omega)
    rw [Nat.mod_eq_of_lt (by omega)] at hitem
    rw [Nat.mod_eq_of_lt (by omega)]
    exact hitem

theorem Holds.item_front (hn : 0 < n) (h : q.Holds n l) {i : ℕ} (hi : i < l.length % n) {v : T}
    (hv : l[l.length - l.length % n + i]? = some v) : q.items.getD i default = v := by
  have hlt := Nat.mod_lt l.length hn
  have hitem := h.item _ v hv (by omega)
  have hdvd : n ∣ l.length - l.length % n := Nat.dvd_sub_mod l.length
  rwa [Nat.add_mod, Nat.mod_eq_zero_of_dvd hdvd, Nat.zero_add, Nat.mod_mod, Nat.mod_eq_of_lt (by omega)]
    at hitem

theorem Holds.item_back (h : q.Holds n l) (hk : n < l.length) {i : ℕ} (hi : l.length % n + i < n) {v : T}
    (hv : l[l.length - n + i]? = some v) : q.items.getD (l.length % n + i) default = v := by
  have hitem := h.item _ v hv (by omega)
  rwa [Nat.add_mod, ← Nat.mod_eq_sub_mod hk.le, Nat.mod_eq_of_lt (show i < n by omega),
    Nat.mod_eq_of_lt hi] at hitem

/-- When the oldest values that the smaller queue comes to show are the ones it should. -/
def Agrees (n m : ℕ) (l : List T) : Prop :=
  n < l.length ∧ 0 < l.length % n ∧ l.length % n < m ∧
    ∀ i < m - l.length % n, l[l.length - n + i]? = l[l.length - m + i]?

/-- A wrapped queue stands as if it had been filled once around. -/
theorem Holds.shrink_wrapped (hmn : m < n) (h : q.Holds n l) (hag : Agrees n m l) :
    (q.setMaxCount m).Keeps m (List.replicate (l.length % n) default ++ l.rtake m) := by
  obtain ⟨hk, hf0, hfm, hag⟩ := hag
  have hl : l ≠ [] := by
    rintro rfl
    simp at hk
  have hlen : (List.replicate (l.length % n) default ++ l.rtake m).length = l.length % n + m := by
    rw [List.length_append, List.length_replicate, length_rtake]
    omega
  have hne : List.replicate (l.length % n) default ++ l.rtake m ≠ [] := by
    rw [← List.length_pos_iff]
    omega
  rw [setMaxCount_of_le h hmn.le]
  refine ⟨rfl, by rw [h.length]; exact hmn.le, ?_, ?_, fun i v hi hfi => ?_⟩
  · rw [if_neg hne, hlen, Nat.add_sub_cancel, Nat.mod_eq_of_lt hfm, h.front, if_neg hl,
      ← Nat.mod_eq_sub_mod hk.le]
  · rw [if_neg hne, hlen, h.rear, if_neg hl, show l.length % n + m - 1 = l.length % n - 1 + m by omega,
      Nat.add_mod_right, Nat.mod_eq_of_lt (show l.length % n - 1 < m by omega)]
    rcases pred_mod_cases (show 0 < n by omega) (show 0 < l.length by omega) with ⟨h0, _⟩ | h1 <;> omega
  · have hilt := (List.getElem?_eq_some_iff.mp hi).1
    rw [hlen] at hilt hfi
    rw [List.getElem?_append_right (by rw [List.length_replicate]; omega), List.length_replicate,
      List.rtake, List.getElem?_drop] at hi
    dsimp only
    by_cases him : i < m
    · rw [← hag _ (by omega)] at hi
      have hitem := h.item_back hk (by omega) hi
      rwa [show l.length % n + (i - l.length % n) = i by omega, ← Nat.mod_eq_of_lt him] at hitem
    · have hplace : i % m = i - m := by
        rw [Nat.mod_eq_sub_mod (by omega), Nat.mod_eq_of_lt (by omega)]
      rw [hplace]
      apply h.item_front (by omega) (by omega)
      rwa [show l.length - l.length % n + (i - m) = l.length - m + (i - l.length % n) by omega]

theorem first_foldl_add {a : ℕ} (ha : 0 < a) (hfront : q.front = a) (hrear : q.rear = a - 1)
    (hmax : q.maxCount = m) (more : List T) (hmore : a + more.length < m) :
    (more.foldl add q).first = q.items.getD (a + more.length) default := by
  induction more generalizing q a with
  | nil => rw [List.foldl_nil, Queue.first, hfront, Int.toNat_natCast, List.length_nil, Nat.add_zero]
  | cons v more ih =>
    rw [List.length_cons] at hmore ⊢
    have hfull : q.isFull = true := by
      simp [isFull, hfront, hrear]
    have hfront' : (q.add v).front = ((a + 1 : ℕ) : ℤ) := by
      simp only [add, hfull, if_pos, hfront, hmax]
      rw [Int.tmod_eq_of_lt (by omega) (by omega), if_neg (by omega)]
      push_cast
      rfl
    have hrear' : (q.add v).rear = ((a + 1 : ℕ) : ℤ) - 1 := by
      simp only [add, hrear, hmax]
      rw [Int.tmod_eq_of_lt (by omega) (by omega)]
      push_cast
      ring
    have hitems : (q.add v).items = q.items.set a v := by
      simp only [add, hrear, hmax]
      rw [Int.tmod_eq_of_lt (by omega) (by omega), sub_add_cancel, Int.toNat_natCast]
    rw [List.foldl_cons, ih (Nat.succ_pos a) hfront' hrear' hmax (by omega), hitems, List.getD,
      List.getElem?_set_ne (by omega), ← List.getD, show a + 1 + more.length = a + (more.length + 1) by omega]

/-- A smaller limit leaves the indices where they were. -/
theorem Shrunk.agrees (hmn : m < n) (h : q.Holds n l) (hs : Shrunk m l (q.setMaxCount m))
    (hk : m < l.length) : Agrees n m l := by
  rw [setMaxCount_of_le h hmn.le] at hs
  have hl : l ≠ [] := by
    rintro rfl
    simp at hk
  have hin : q.front < m ∧ q.rear < m := hs.inside []
  rw [h.front, h.rear, if_neg hl, if_neg hl] at hin
  obtain ⟨hfront, hrear⟩ := hin
  have hkn : n < l.length := by
    by_contra hc
    rw [Nat.mod_eq_of_lt (show l.length - 1 < n by omega)] at hrear
    omega
  rw [← Nat.mod_eq_sub_mod hkn.le] at hfront
  have hback := pred_mod_cases (show 0 < n by omega) (show 0 < l.length by omega)
  have hf0 : 0 < l.length % n := by omega
  refine ⟨hkn, hf0, by omega, fun i hi => ?_⟩
  have hmore : (List.replicate i (default : T)).length = i := List.length_replicate
  have hfirst := hs.first (List.replicate i default) (by rw [List.length_append]; omega)
  have hshown : (List.foldl add { q with maxCount := m } (List.replicate i default)).first =
      q.items.getD (l.length % n + i) default := by
    rw [first_foldl_add hf0 _ _ rfl _ (by omega), hmore]
    · dsimp only
      rw [h.front, if_neg hl, ← Nat.mod_eq_sub_mod hkn.le]
    · dsimp only
      rw [h.rear, if_neg hl]
      omega
  rw [hshown, List.length_append, hmore, List.getElem?_append_left (by omega),
    show l.length + i - m = l.length - m + i by omega] at hfirst
  obtain ⟨v, hv⟩ : ∃ v, l[l.length - n + i]? = some v := ⟨_, List.getElem?_eq_getElem (by omega)⟩
  rw [hfirst, hv, h.item_back hkn (by omega) hv]

/-- **Shrinking keeps the newest values** if and only if there are no more of them than the
new limit, or the wrapped queue happens to show the right ones. -/
theorem setMaxCount_shrunk (hm : 0 < m) (hmn : m < n) (l : List T) :
    Shrunk m l ((l.foldl add (make n)).setMaxCount m) ↔ l.length ≤ m ∨ Agrees n m l := by
  have h := holds_foldl (hm.trans hmn) l
  constructor
  · intro hs
    by_cases hk : l.length ≤ m
    · exact Or.inl hk
    · exact Or.inr (hs.agrees hmn h (by omega))
  · intro hc
    rcases hc with hk | hag
    · exact (h.shrink hmn hk).shrunk hm rfl
    · apply (h.shrink_wrapped hmn hag).shrunk hm
      have hk := hag.1
      have hlen := length_rtake m l
      rw [rtake_append_of_le _ (by omega), List.rtake, hlen, Nat.sub_eq_zero_of_le (by omega),
        List.drop_zero]

/-- Queues for three values shrink to two: one that holds two, and one that has wrapped with the
same value in the second and the third place. -/
theorem setMaxCount_shrunk_wrapped :
    Shrunk 2 [1, 2] (([1, 2].foldl add (make 3)).setMaxCount 2) ∧
      Shrunk 2 [1, 2, 2, 3] (([1, 2, 2, 3].foldl add (make 3)).setMaxCount 2) :=
  ⟨(setMaxCount_shrunk (by decide) (by decide) [1, 2]).mpr (Or.inl (by decide)),
    (setMaxCount_shrunk (by decide) (by decide) [1, 2, 2, 3]).mpr
      (Or.inr ⟨by decide, by decide, by decide, by decide⟩)⟩

/-- With three values in a queue for three, the rear index stays at the third place. -/
theorem setMaxCount_outside :
    ¬∀ (n m : ℕ) (l : List ℕ), 0 < m → m < n →
      Shrunk m l ((l.foldl add (make n)).setMaxCount m) := by
  intro h
  exact absurd ((h 3 2 [1, 2, 3] (by decide) (by decide)).inside []).2 (by decide)

end Shrink

end PollServer.Queue
