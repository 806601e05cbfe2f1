import Mathlib.Tactic

/-! A computation on a state that may stop before its end, and then keeps the state it
stopped in: for code that changes what others see before it fails. -/

namespace PollServer.Lib

def StopM (ε σ α : Type) : Type := σ → Except ε α × σ

namespace StopM

variable {ε σ α β : Type}

instance : Monad (StopM ε σ) where
  pure a s := (.ok a, s)
  bind m f s :=
    match m s with
    | (.ok a, s) => f a s
    | (.error e, s) => (.error e, s)

@[simp] theorem pure_apply (a : α) (s : σ) : (pure a : StopM ε σ α) s = (.ok a, s) := rfl

theorem bind_ok {m : StopM ε σ α} {f : α → StopM ε σ β} {s s' : σ} {a : α}
    (h : m s = (.ok a, s')) : (m >>= f) s = f a s' := by
  simp only [bind, h]

theorem bind_error {m : StopM ε σ α} {f : α → StopM ε σ β} {s s' : σ} {e : ε}
    (h : m s = (.error e, s')) : (m >>= f) s = (.error e, s') := by
  simp only [bind, h]

/-- Stops at once. -/
def stop (e : ε) : StopM ε σ α := fun s => (.error e, s)

/-- Reads the state, or stops. -/
def ask (f : σ → Except ε α) : StopM ε σ α := fun s => (f s, s)

/-- Whatever comes of `m`, the state it leaves is related to the one it started in. -/
def Steps (R : σ → σ → Prop) (m : StopM ε σ α) : Prop := ∀ s, R s (m s).2

namespace Steps

variable {R : σ → σ → Prop}

theorem pure (hR : ∀ s, R s s) (a : α) : Steps R (Pure.pure a : StopM ε σ α) := fun s => hR s

theorem stop (hR : ∀ s, R s s) (e : ε) : Steps R (StopM.stop e : StopM ε σ α) := fun s => hR s

theorem ask (hR : ∀ s, R s s) (f : σ → Except ε α) : Steps R (StopM.ask f) := fun s => hR s

theorem bind_of {R' R'' : σ → σ → Prop} (hstop : ∀ s s', R s s' → R'' s s')
    (hR : ∀ s s' s'', R s s' → R' s' s'' → R'' s s'') {m : StopM ε σ α}
    {f : α → StopM ε σ β} (hm : Steps R m) (hf : ∀ a, Steps R' (f a)) : Steps R'' (m >>= f) := by
  intro s
  have h := hm s
  rcases hms : m s with ⟨e | a, s'⟩
  · rw [bind_error hms]
    rw [hms] at h
    exact hstop _ _ h
  · rw [bind_ok hms]
    rw [hms] at h
    exact hR _ _ _ h (hf a s')

theorem bind (hR : ∀ s s' s'', R s s' → R s' s'' → R s s'') {m : StopM ε σ α}
    {f : α → StopM ε σ β} (hm : Steps R m) (hf : ∀ a, Steps R (f a)) : Steps R (m >>= f) :=
  bind_of (fun _ _ h => h) hR hm hf

theorem ite {p : Prop} [Decidable p] {m m' : StopM ε σ α} (hm : Steps R m) (hm' : Steps R m') :
    Steps R (if p then m else m') := by
  split_ifs <;> assumption

end Steps

end StopM

end PollServer.Lib
