import Mathlib.Data.List.DropRight
import Mathlib.Tactic

/-! The last `n` elements of a list, and when as many of its elements satisfy a property
that, along the list, is never lost again; and lists of which every element is near to less
than `n` of those before it. -/

namespace PollServer.Lib

variable {α : Type} {p : α → Bool} {l l' : List α} {n : ℕ}

/-- Once an element satisfies `p`, all the elements behind it do. -/
def Lasting (p : α → Bool) (l : List α) : Prop := l.Pairwise fun a b => p a = true → p b = true

theorem rdrop_append_rtake (n : ℕ) (l : List α) : l.rdrop n ++ l.rtake n = l :=
  List.take_append_drop _ _

theorem length_rtake (n : ℕ) (l : List α) : (l.rtake n).length = min n l.length := by
  rw [List.rtake, List.length_drop]
  omega

theorem head?_rtake (n : ℕ) (l : List α) : (l.rtake n).head? = l[l.length - n]? :=
  List.head?_drop

theorem getLast?_rtake (hn : 0 < n) (l : List α) : (l.rtake n).getLast? = l.getLast? := by
  by_cases hl : l = []
  · simp [hl]
  have hpos := List.length_pos_iff.mpr hl
  rw [List.rtake, List.getLast?_drop, if_neg (by omega)]

theorem le_length_of_rtake (h : l.rtake n = l'.rtake n) : n ≤ l.length ↔ n ≤ l'.length := by
  have hl := congrArg List.length h
  rw [length_rtake, length_rtake] at hl
  omega

theorem rtake_append_of_le (l : List α) (h : n ≤ l'.length) : (l ++ l').rtake n = l'.rtake n := by
  rw [List.rtake, List.rtake, List.length_append,
    show l.length + l'.length - n = l.length + (l'.length - n) by omega, List.drop_append]
  simp

/-- Of what comes before, the last `n` elements matter. -/
theorem rtake_append_rtake (n : ℕ) (l l' : List α) :
    (l.rtake n ++ l').rtake n = (l ++ l').rtake n := by
  by_cases hl : l.length ≤ n
  · rw [List.rtake, List.rtake, List.rtake, Nat.sub_eq_zero_of_le hl, List.drop_zero]
  · have hlen := length_rtake n l
    have hsplit : l ++ l' = l.rdrop n ++ (l.rtake n ++ l') := by
      rw [← List.append_assoc, rdrop_append_rtake]
    rw [hsplit]
    exact (rtake_append_of_le _ (by rw [List.length_append]; omega)).symm

theorem le_countP_iff (h : Lasting p l) :
    n ≤ l.countP p ↔ n ≤ l.length ∧ ∀ a ∈ l.rtake n, p a = true := by
  have hsplit := rdrop_append_rtake n l
  have hlen := length_rtake n l
  constructor
  · intro hc
    have hle : n ≤ l.length := hc.trans List.countP_le_length
    refine ⟨hle, fun a ha => ?_⟩
    by_contra hp
    -- then nothing before `a` satisfies it either, and the last `n` are too few without `a`
    have hbefore : (l.rdrop n).countP p = 0 := by
      rw [List.countP_eq_zero]
      intro x hx hpx
      rw [Lasting, ← hsplit, List.pairwise_append] at h
      exact hp (h.2.2 x hx a ha hpx)
    have hlt : (l.rtake n).countP p < (l.rtake n).length :=
      lt_of_le_of_ne List.countP_le_length fun he => hp (List.countP_eq_length.mp he a ha)
    rw [← hsplit, List.countP_append, hbefore] at hc
    omega
  · rintro ⟨hle, hall⟩
    calc n = (l.rtake n).length := by omega
      _ = (l.rtake n).countP p := (List.countP_eq_length.mpr hall).symm
      _ ≤ (l.rdrop n).countP p + (l.rtake n).countP p := Nat.le_add_left _ _
      _ = l.countP p := by rw [← List.countP_append, hsplit]

/-- With `n` elements, it is the first of the last `n` that decides. -/
theorem le_countP_iff_head (h : Lasting p l) (hl : n ≤ l.length) {a : α}
    (ha : (l.rtake n).head? = some a) : n ≤ l.countP p ↔ p a = true := by
  rw [le_countP_iff h]
  obtain ⟨rest, hrest⟩ : ∃ rest, l.rtake n = a :: rest := by
    cases hr : l.rtake n with
    | nil => simp [hr] at ha
    | cons x rest =>
      rw [hr] at ha
      cases ha
      exact ⟨rest, rfl⟩
  have hlast : Lasting p (a :: rest) := by
    rw [← hrest]
    exact h.sublist (List.drop_sublist _ _)
  rw [hrest]
  constructor
  · intro hall
    exact hall.2 a List.mem_cons_self
  · intro hp
    refine ⟨hl, fun x hx => ?_⟩
    rcases List.mem_cons.mp hx with rfl | hx
    · exact hp
    · exact (List.pairwise_cons.mp hlast).1 x hx hp

/-- Every element has less than `n` elements near it among those before it. -/
def Spaced (near : α → α → Bool) (n : ℕ) (l : List α) : Prop :=
  ∀ before a after, l = before ++ a :: after → before.countP (near a) < n

namespace Spaced

variable {near : α → α → Bool}

theorem singleton (hn : 0 < n) (a : α) : Spaced near n [a] := by
  intro before a' after h
  cases before with
  | nil => exact hn
  | cons x before => simp at h

theorem append (h : Spaced near n l)
    (h' : ∀ before a after, l' = before ++ a :: after → (l ++ before).countP (near a) < n) :
    Spaced near n (l ++ l') := by
  intro before a after he
  rcases List.append_eq_append_iff.mp he with ⟨more, rfl, hl'⟩ | ⟨more, hl, hmore⟩
  · exact h' more a after hl'
  · cases more with
    | nil =>
      rw [List.append_nil] at hl
      subst hl
      have hfirst := h' [] a after (by simpa using hmore.symm)
      rwa [List.append_nil] at hfirst
    | cons x more =>
      obtain ⟨rfl, -⟩ := List.cons.inj hmore
      exact h before a more hl

/-- **Less than `n` before each is `n` at most in a window**, if what lies in the window is
near to what lies in it. -/
theorem countP_le (h : Spaced near n l) {window : α → Bool}
    (hw : ∀ a ∈ l, ∀ x ∈ l, window a = true → window x = true → near a x = true) :
    l.countP window ≤ n := by
  induction l using List.reverseRecOn with
  | nil => exact Nat.zero_le n
  | append_singleton l a ih =>
    have hl := ih (fun before x after he => h before x (after ++ [a]) (by rw [he]; simp))
      fun x hx y hy => hw x (by simp [hx]) y (by simp [hy])
    rw [List.countP_append, List.countP_singleton]
    split_ifs with ha
    · have hlt := h l a [] rfl
      have hle : l.countP window ≤ l.countP (near a) :=
        List.countP_mono_left fun x hx hx' => hw a (by simp) x (by simp [hx]) ha hx'
      omega
    · exact hl

end Spaced

end PollServer.Lib
