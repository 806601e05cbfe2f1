import Mathlib.Tactic

/-! A list written in pieces of given lengths, when every piece is taken from the start of
the list, and when the pieces still come out as the list. -/

namespace PollServer.Lib

variable {α : Type} {l : List α} {ks : List ℕ}

def pieces (l : List α) (ks : List ℕ) : List α := ks.flatMap l.take

/-- Every piece reads as if it had been taken where the pieces before it end. -/
def Resumes (l : List α) (ks : List ℕ) : Prop :=
  ∀ before k after, ks = before ++ k :: after → l.take k = (l.drop before.sum).take k

@[simp] theorem pieces_append (l : List α) (js ks : List ℕ) :
    pieces l (js ++ ks) = pieces l js ++ pieces l ks := List.flatMap_append

@[simp] theorem pieces_cons (l : List α) (k : ℕ) (ks : List ℕ) :
    pieces l (k :: ks) = l.take k ++ pieces l ks := List.flatMap_cons

theorem length_pieces (hk : ∀ k ∈ ks, k ≤ l.length) : (pieces l ks).length = ks.sum := by
  induction ks with
  | nil => rfl
  | cons k ks ih =>
    have hle := hk k List.mem_cons_self
    rw [pieces_cons, List.length_append, List.length_take, Nat.min_eq_left hle, List.sum_cons,
      ih fun j hj => hk j (List.mem_cons_of_mem _ hj)]

theorem Resumes.of_append {js : List ℕ} (h : Resumes l (js ++ ks)) : Resumes l js :=
  fun before k after he => h before k (after ++ ks) (by rw [he]; simp)

theorem Resumes.pieces_eq (h : Resumes l ks) (hk : ∀ k ∈ ks, k ≤ l.length) :
    ks.sum ≤ l.length ∧ pieces l ks = l.take ks.sum := by
  induction ks using List.reverseRecOn with
  | nil => exact ⟨Nat.zero_le _, rfl⟩
  | append_singleton js k ih =>
    obtain ⟨hle, heq⟩ := ih h.of_append fun j hj => hk j (List.mem_append_left _ hj)
    have hlast := h js k [] rfl
    have hlen := congrArg List.length hlast
    have hkl := hk k (by simp)
    simp only [List.length_take, List.length_drop] at hlen
    refine ⟨by rw [List.sum_append, List.sum_singleton]; omega, ?_⟩
    rw [pieces_append, heq, List.sum_append, List.sum_singleton, List.take_add, ← hlast]
    simp [pieces]

theorem resumes_of_prefix (hk : ∀ k ∈ ks, k ≤ l.length) (h : pieces l ks <+: l) :
    Resumes l ks := by
  intro before k after he
  subst he
  obtain ⟨rest, hrest⟩ := h
  have hb : (pieces l before).length = before.sum :=
    length_pieces fun j hj => hk j (List.mem_append_left _ hj)
  have hkl : (l.take k).length = k := by
    rw [List.length_take, Nat.min_eq_left (hk k (by simp))]
  have hdrop : l.drop before.sum = l.take k ++ (pieces l after ++ rest) := by
    conv_lhs => rw [← hrest]
    rw [pieces_append, pieces_cons, List.append_assoc, List.append_assoc, List.drop_left' hb]
  rw [hdrop, List.take_left' hkl]

end PollServer.Lib
