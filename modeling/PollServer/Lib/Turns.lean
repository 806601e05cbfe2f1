import PollServer.Lib.StopM

/-! A loop whose body is cut into turns. A turn ends the loop, or says where the next one starts. -/

namespace PollServer.Lib.StopM

variable {ε σ α C : Type}

/-- At most `fuel` turns from `c` on. -/
def turns (turn : C → StopM ε σ (α ⊕ C)) (e : ε) : ℕ → C → StopM ε σ α
  | 0, _ => stop e
  | fuel + 1, c => do
    match ← turn c with
    | .inl a => return a
    | .inr c' => turns turn e fuel c'

/-- The loop comes to `c'` in the state `s'`. -/
inductive Reaches (turn : C → StopM ε σ (α ⊕ C)) (c : C) (s : σ) : C → σ → Prop where
  | start : Reaches turn c s c s
  | turn {c' c'' s' s''} (h : Reaches turn c s c' s') (ht : turn c' s' = (.ok (.inr c''), s'')) :
      Reaches turn c s c'' s''

variable {turn : C → StopM ε σ (α ⊕ C)} {e : ε} {c c' c'' : C} {s s' s'' : σ}

theorem turns_next (ht : turn c s = (.ok (.inr c'), s')) (fuel : ℕ) :
    turns turn e (fuel + 1) c s = turns turn e fuel c' s' := by
  rw [turns, bind_ok ht]

theorem turns_done {a : α} (ht : turn c s = (.ok (.inl a), s')) (fuel : ℕ) :
    turns turn e (fuel + 1) c s = (.ok a, s') := by
  rw [turns, bind_ok ht]
  rfl

theorem turns_stop {e' : ε} (ht : turn c s = (.error e', s')) (fuel : ℕ) :
    turns turn e (fuel + 1) c s = (.error e', s') := by
  rw [turns, bind_error ht]

theorem Reaches.trans (h : Reaches turn c s c' s') (h' : Reaches turn c' s' c'' s'') :
    Reaches turn c s c'' s'' := by
  induction h' with
  | start => exact h
  | turn _ ht ih => exact .turn ih ht

theorem Reaches.keeps {I : C → σ → Prop}
    (hturn : ∀ c s c' s', I c s → turn c s = (.ok (.inr c'), s') → I c' s') (h0 : I c s)
    (h : Reaches turn c s c' s') : I c' s' := by
  induction h with
  | start => exact h0
  | turn _ ht ih => exact hturn _ _ _ _ ih ht

/-- A loop that stops has run out of fuel, or one of its turns has stopped. -/
theorem turns_error {fuel : ℕ} {e' : ε} {t : σ} (h : turns turn e fuel c s = (.error e', t)) :
    e' = e ∨ ∃ c' s', Reaches turn c s c' s' ∧ (turn c' s').1 = .error e' := by
  induction fuel generalizing c s with
  | zero =>
    cases h
    exact .inl rfl
  | succ fuel ih =>
    rcases ht : turn c s with ⟨e'' | a | c', s'⟩
    · rw [turns_stop ht] at h
      cases h
      exact .inr ⟨c, s, .start, by rw [ht]⟩
    · rw [turns_done ht] at h
      cases h
    · rw [turns_next ht] at h
      rcases ih h with he | ⟨c'', s'', hreach, hstop⟩
      · exact .inl he
      · exact .inr ⟨c'', s'', (Reaches.turn .start ht).trans hreach, hstop⟩

end PollServer.Lib.StopM
