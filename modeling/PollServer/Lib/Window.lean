import Mathlib.Tactic

/-! Windows of a fixed array and in-place overwriting, over any element type. An
array is a list whose length never changes, a window is what lies at
`[o, o + k)`, and `overwrite` is what a copy into the array leaves behind. -/

namespace PollServer.Lib

variable {α : Type}

def window (l : List α) (o k : ℕ) : List α := (l.drop o).take k

def overwrite (l : List α) (p : ℕ) (bs : List α) : List α :=
  l.take p ++ bs ++ l.drop (p + bs.length)

theorem length_window {l : List α} {o k : ℕ} (h : o + k ≤ l.length) : (window l o k).length = k := by
  simp only [window, List.length_take, List.length_drop]
  omega

theorem length_overwrite {l bs : List α} {p : ℕ} (h : p + bs.length ≤ l.length) :
    (overwrite l p bs).length = l.length := by
  simp only [overwrite, List.length_append, List.length_take, List.length_drop]
  omega

@[simp] theorem overwrite_nil (l : List α) (p : ℕ) : overwrite l p [] = l := by
  simp [overwrite]

@[simp] theorem window_zero (l : List α) (o : ℕ) : window l o 0 = [] := by
  simp [window]

theorem window_append (l : List α) (o j k : ℕ) :
    window l o (j + k) = window l o j ++ window l (o + j) k := by
  simp only [window, List.take_add, List.drop_drop]

theorem window_overwrite {l bs : List α} {p : ℕ} (h : p ≤ l.length) :
    window (overwrite l p bs) p bs.length = bs := by
  have hp : (l.take p).length = p := by simp [h]
  rw [window, overwrite, List.append_assoc, List.drop_append_of_le_length (by omega),
    List.drop_of_length_le (by omega), List.nil_append, List.take_left']
  rfl

theorem window_overwrite_before {l bs : List α} {p o k : ℕ} (h : p ≤ l.length) (hk : o + k ≤ p) :
    window (overwrite l p bs) o k = window l o k := by
  have hp : (l.take p).length = p := by simp [h]
  rw [window, overwrite, List.append_assoc, List.drop_append_of_le_length (by omega),
    List.take_append_of_le_length (by simp; omega), List.drop_take, List.take_take,
    Nat.min_eq_left (by omega), window]

theorem window_overwrite_extend {l u : List α} (bs : List α) {o : ℕ} (h : o + u.length ≤ l.length)
    (hu : window l o u.length = u) :
    window (overwrite l (o + u.length) bs) o (u.length + bs.length) = u ++ bs := by
  rw [window_append, window_overwrite_before h le_rfl, hu, window_overwrite h]

theorem window_take {l u : List α} {o j : ℕ} (hu : window l o u.length = u) (hj : j ≤ u.length) :
    window l o j = u.take j := by
  conv_rhs => rw [← hu, window, List.take_take, Nat.min_eq_left hj]
  rfl

theorem window_drop {l u : List α} {o j : ℕ} (hu : window l o u.length = u) (hj : j ≤ u.length) :
    window l (o + j) (u.length - j) = u.drop j := by
  have h := window_append l o j (u.length - j)
  rw [show j + (u.length - j) = u.length by omega, hu, window_take hu hj] at h
  have ht : (u.take j).length = j := by simp [hj]
  conv_rhs => rw [h, List.drop_left' ht]

theorem overwrite_overwrite {l bs cs : List α} {p : ℕ} (h : p + bs.length ≤ l.length) :
    overwrite (overwrite l p bs) (p + bs.length) cs = overwrite l p (bs ++ cs) := by
  have hp : (l.take p ++ bs).length = p + bs.length := by
    simp only [List.length_append, List.length_take]
    omega
  have h1 : (overwrite l p bs).take (p + bs.length) = l.take p ++ bs := by
    rw [overwrite, List.take_left' hp]
  have h2 : (overwrite l p bs).drop (p + bs.length + cs.length) =
      l.drop (p + (bs ++ cs).length) := by
    rw [← List.drop_drop, overwrite, List.drop_left' hp, List.drop_drop, List.length_append,
      Nat.add_assoc]
  rw [overwrite, h1, h2, overwrite, List.append_assoc (l.take p)]

/-- Copying a window to the front of the array. -/
theorem window_move {l : List α} {o k : ℕ} (h : o + k ≤ l.length) :
    window (l.drop o ++ l.drop (l.length - o)) 0 k = window l o k := by
  rw [window, window, List.drop_zero, List.take_append_of_le_length (by simp; omega)]

end PollServer.Lib
