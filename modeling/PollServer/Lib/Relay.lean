import Mathlib.Tactic

/-! Queues that keep their order: what went in is what came out, and what is still inside
behind it. Two of them in a row are one. -/

namespace PollServer.Lib

variable {α β : Type}

/-- Of what went in, `out` has come out, and `inside` has not. -/
def Relays (inp inside out : List α) : Prop := inp = out ++ inside

namespace Relays

variable {inp inside inside' mid out xs : List α}

theorem start : Relays ([] : List α) [] [] := rfl

theorem push (h : Relays inp inside out) (xs : List α) : Relays (inp ++ xs) (inside ++ xs) out := by
  rw [Relays, ← List.append_assoc, ← h]

theorem pop (h : Relays inp (xs ++ inside) out) : Relays inp inside (out ++ xs) := by
  rw [Relays, List.append_assoc]
  exact h

/-- What comes out of the first goes into the second. -/
theorem comp (h : Relays inp inside mid) (h' : Relays mid inside' out) :
    Relays inp (inside' ++ inside) out := by
  rw [Relays, ← List.append_assoc, ← h']
  exact h

theorem map (f : α → β) (h : Relays inp inside out) :
    Relays (inp.map f) (inside.map f) (out.map f) := by
  rw [Relays, ← List.map_append, ← h]

theorem filter (p : α → Bool) (h : Relays inp inside out) :
    Relays (inp.filter p) (inside.filter p) (out.filter p) := by
  rw [Relays, ← List.filter_append, ← h]

theorem whole (h : Relays inp [] out) : out = inp := by
  rw [h, List.append_nil]

end Relays

end PollServer.Lib
