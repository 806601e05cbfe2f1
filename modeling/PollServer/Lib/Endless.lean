import Mathlib.Tactic

/-! Loops that take one outcome a turn, of endlessly many. The loop is a function of a list of
outcomes, and has ended on the front of them when what comes behind no longer matters. -/

namespace PollServer.Lib

variable {E R S : Type}

/-- The first `k` outcomes. -/
def firsts (outcomes : ℕ → E) (k : ℕ) : List E := (List.range k).map outcomes

@[simp] theorem length_firsts (outcomes : ℕ → E) (k : ℕ) : (firsts outcomes k).length = k := by
  rw [firsts, List.length_map, List.length_range]

theorem firsts_succ (outcomes : ℕ → E) (k : ℕ) :
    firsts outcomes (k + 1) = firsts outcomes k ++ [outcomes k] := by
  rw [firsts, List.range_succ, List.map_append]
  rfl

theorem mem_firsts {outcomes : ℕ → E} {k : ℕ} {e : E} :
    e ∈ firsts outcomes k ↔ ∃ i < k, outcomes i = e := by
  simp [firsts]

/-- `f` comes to `r` on the outcomes `front`, whatever is to come behind them. -/
def EndsOn (f : List E → R) (front : List E) (r : R) : Prop := ∀ more, f (front ++ more) = r

/-- What the outcome `e` makes of a loop that is in `s` after `front`: it ends, or it goes on from
a smaller state. -/
inductive Turn (loop : S → List E → R) (μ : S → ℕ) (I : List E → S → Prop)
    (Post : List E → R → Prop) (front : List E) (s : S) (e : E) : Prop where
  | ends (r : R) (hpost : Post (front ++ [e]) r) (h : ∀ more, loop s (e :: more) = r)
  | goes (s' : S) (hI : I (front ++ [e]) s') (hμ : μ s' < μ s)
      (h : ∀ more, loop s (e :: more) = loop s' more)

/-- **A loop ends within its measure.** A state in which it is left at once needs no outcome, and in
every other `J` holds of the outcomes so far. -/
theorem ends_of_measure {loop : S → List E → R} {μ : S → ℕ} {I : List E → S → Prop}
    {J : List E → Prop} {Post : List E → R → Prop} {outcomes : ℕ → E}
    (hturn : ∀ front s, I front s → (∃ r, Post front r ∧ ∀ more, loop s more = r) ∨
      (J front ∧ 0 < μ s ∧ ∀ i, Turn loop μ I Post front s (outcomes i))) {s : S} (hs : I [] s) :
    ∃ k ≤ μ s, ∃ r, Post (firsts outcomes k) r ∧ EndsOn (loop s) (firsts outcomes k) r ∧
      ∀ j < k, J (firsts outcomes j) := by
  -- from a state that the first `i` outcomes lead to
  have hfrom : ∀ (m i : ℕ) (s' : S), μ s' = m → I (firsts outcomes i) s' →
      (∀ more, loop s (firsts outcomes i ++ more) = loop s' more) →
      (∀ j < i, J (firsts outcomes j)) →
      ∃ k ≤ i + m, ∃ r, Post (firsts outcomes k) r ∧ EndsOn (loop s) (firsts outcomes k) r ∧
        ∀ j < k, J (firsts outcomes j) := by
    intro m
    induction m using Nat.strong_induction_on with
    | _ m ih =>
      intro i s' hm hI hloop hbefore
      rcases hturn _ s' hI with ⟨r, hpost, hr⟩ | ⟨hJ, hpos, hgo⟩
      · exact ⟨i, Nat.le_add_right _ _, r, hpost, fun more => (hloop more).trans (hr more), hbefore⟩
      have hnow : ∀ j < i + 1, J (firsts outcomes j) := fun j hj =>
        (Nat.lt_succ_iff_lt_or_eq.mp hj).elim (hbefore j) fun hij => hij ▸ hJ
      have hstep : ∀ more, loop s (firsts outcomes (i + 1) ++ more) = loop s' (outcomes i :: more) := by
        intro more
        rw [firsts_succ, List.append_assoc]
        exact hloop _
      rcases hgo i with ⟨r, hpost, hr⟩ | ⟨s'', hI', hlt, hr⟩
      · rw [← firsts_succ] at hpost
        exact ⟨i + 1, by omega, r, hpost, fun more => (hstep more).trans (hr more), hnow⟩
      · rw [← firsts_succ] at hI'
        obtain ⟨k, hk, hrest⟩ := ih (μ s'') (by omega) (i + 1) s'' rfl hI'
          (fun more => (hstep more).trans (hr more)) hnow
        exact ⟨k, by omega, hrest⟩
  obtain ⟨k, hk, hrest⟩ := hfrom (μ s) 0 s rfl hs (fun more => rfl) (fun j hj => absurd hj (by omega))
  exact ⟨k, by omega, hrest⟩

end PollServer.Lib
