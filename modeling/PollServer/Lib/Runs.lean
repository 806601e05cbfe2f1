import Mathlib.Tactic

/-! Runs of a labelled transition system, the invariant rule for them, and what a
history says of the time since an event. -/

namespace PollServer.Lib

variable {S E : Type}

/-- The runs from `init`, each with the events of its steps in order. -/
inductive Run (step : S → List E → S → Prop) (init : S) : List E → S → Prop where
  | start : Run step init [] init
  | next {history es : List E} {s s' : S} (hr : Run step init history s) (hs : step s es s') :
      Run step init (history ++ es) s'

/-- What holds at the start and is kept by every step of a run holds at its end. -/
theorem Run.invariant {step : S → List E → S → Prop} {init : S} {I : List E → S → Prop}
    (h0 : I [] init)
    (hstep : ∀ history es s s', I history s → step s es s' → I (history ++ es) s')
    {history : List E} {s : S} (h : Run step init history s) : I history s := by
  induction h with
  | start => exact h0
  | next _ hs ih => exact hstep _ _ _ _ ih hs

theorem Run.append {step : S → List E → S → Prop} {init s s' : S} {history more : List E}
    (h : Run step init history s) (h' : Run step s more s') : Run step init (history ++ more) s' := by
  induction h' with
  | start => rwa [List.append_nil]
  | next _ hs ih =>
    rw [← List.append_assoc]
    exact .next ih hs

/-- A run whose steps are runs of finer steps. -/
theorem Run.refine {step step' : S → List E → S → Prop} {init : S}
    (hstep : ∀ s es s', step s es s' → Run step' s es s') {history : List E} {s : S}
    (h : Run step init history s) : Run step' init history s := by
  induction h with
  | start => exact .start
  | next _ hs ih => exact ih.append (hstep _ _ _ hs)

/-- Seen through `f`, the steps of a run are runs of another system, which goes along with it. -/
theorem Run.simulate {T F : Type} {step : S → List E → S → Prop} {step' : T → List F → T → Prop}
    {R : S → T → Prop} {f : E → Option F} {init : S} {init' : T} (h0 : R init init')
    (hstep : ∀ s es s' t, R s t → step s es s' → ∃ t', Run step' t (es.filterMap f) t' ∧ R s' t')
    {history : List E} {s : S} (h : Run step init history s) :
    ∃ t, Run step' init' (history.filterMap f) t ∧ R s t := by
  induction h with
  | start => exact ⟨init', .start, h0⟩
  | next _ hs ih =>
    obtain ⟨t, hr, ht⟩ := ih
    obtain ⟨t', hr', ht'⟩ := hstep _ _ _ _ ht hs
    rw [List.filterMap_append]
    exact ⟨t', hr.append hr', ht'⟩

theorem foldlM_ok {ε α : Type} {R : S → S → Prop} (hrefl : ∀ s, R s s)
    (htrans : ∀ s s' s'', R s s' → R s' s'' → R s s'') {f : S → α → Except ε S}
    (hf : ∀ s a s', f s a = .ok s' → R s s') {l : List α} {s s' : S}
    (h : l.foldlM f s = .ok s') : R s s' := by
  induction l generalizing s with
  | nil =>
    cases h
    exact hrefl _
  | cons a l ih =>
    rw [List.foldlM_cons] at h
    rcases hfa : f s a with e | s1
    · rw [hfa] at h
      cases h
    · rw [hfa] at h
      exact htrans _ _ _ (hf _ _ _ hfa) (ih h)

theorem foldlM_eq {ε α : Type} {I : S → Prop} {P : α → Prop} {f : S → α → Except ε S}
    {g : S → α → S} (hf : ∀ s a, I s → P a → f s a = .ok (g s a) ∧ I (g s a)) {l : List α}
    (hl : ∀ a ∈ l, P a) {s : S} (hs : I s) :
    l.foldlM f s = .ok (l.foldl g s) ∧ I (l.foldl g s) := by
  induction l generalizing s with
  | nil => exact ⟨rfl, hs⟩
  | cons a l ih =>
    obtain ⟨heq, hnext⟩ := hf s a hs (hl a List.mem_cons_self)
    rw [List.foldlM_cons, heq]
    exact ih (fun a' ha' => hl a' (List.mem_cons_of_mem a ha')) hnext

/-- There was a `P`, and there has been no `Q` since. -/
def Since (P Q : E → Prop) (history : List E) : Prop :=
  ∃ before e after, history = before ++ e :: after ∧ P e ∧ ∀ e' ∈ after, ¬Q e'

namespace Since

variable {P Q : E → Prop} {history es : List E}

theorem append (h : Since P Q history) (hes : ∀ e ∈ es, ¬Q e) : Since P Q (history ++ es) := by
  obtain ⟨before, e, after, rfl, he, hafter⟩ := h
  refine ⟨before, e, after ++ es, by simp, he, fun e' he' => ?_⟩
  rcases List.mem_append.mp he' with he' | he'
  · exact hafter e' he'
  · exact hes e' he'

theorem of_mem {e : E} (he : e ∈ es) (hP : P e) (hes : ∀ e ∈ es, ¬Q e) :
    Since P Q (history ++ es) := by
  obtain ⟨before, after, rfl⟩ := List.append_of_mem he
  exact ⟨history ++ before, e, after, by simp, hP, fun e' he' => hes e' (by simp [he'])⟩

theorem of_append (h : Since P Q (history ++ es)) :
    (∃ e ∈ es, P e) ∨ (Since P Q history ∧ ∀ e ∈ es, ¬Q e) := by
  obtain ⟨before, e, after, heq, he, hafter⟩ := h
  rcases List.append_eq_append_iff.mp heq with ⟨mid, -, hes⟩ | ⟨mid, hhistory, hmid⟩
  · exact Or.inl ⟨e, by simp [hes], he⟩
  · cases mid with
    | nil => exact Or.inl ⟨e, by rw [← show e :: after = es from hmid]; exact List.mem_cons_self, he⟩
    | cons e' mid =>
      rw [List.cons_append, List.cons.injEq] at hmid
      obtain ⟨rfl, rfl⟩ := hmid
      refine Or.inr ⟨⟨before, e, mid, hhistory, he, fun e' he' => ?_⟩, fun e' he' => ?_⟩
      · exact hafter e' (List.mem_append_left es he')
      · exact hafter e' (List.mem_append_right mid he')

end Since

end PollServer.Lib
