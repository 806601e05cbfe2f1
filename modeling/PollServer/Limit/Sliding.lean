import PollServer.Limit.Resize

/-! The ring buffer is a window over the values that are added to it. -/

namespace PollServer.Queue

open Lib

variable {T : Type} [Inhabited T] {q : Queue T} {n : ℕ} {l : List T}

/-- `items[index]` is an element. -/
def Within (q : Queue T) (index : ℤ) : Prop := 0 ≤ index ∧ index < q.items.length

/-- `q` is a window for `n` values over `l`. `add` writes at the rear index it sets, `first` and
`last` read at the two there are. -/
structure Slides (n : ℕ) (l : List T) (q : Queue T) : Prop where
  contents : q.contents = l.rtake n
  length : q.items.length = n
  full : q.isFull = true ↔ n ≤ l.length
  first : l ≠ [] → (l.rtake n).head? = some q.first
  last : l ≠ [] → (l.rtake n).getLast? = some q.last
  reads : l ≠ [] → q.Within q.front ∧ q.Within q.rear
  writes : ∀ value : T, q.Within (q.add value).rear

theorem Holds.within_front (hn : 0 < n) (h : q.Holds n l) (hl : l ≠ []) : q.Within q.front := by
  have hlt := Nat.mod_lt (l.length - n) hn
  rw [Within, h.front, if_neg hl, h.length]
  omega

theorem Holds.within_rear (hn : 0 < n) (h : q.Holds n l) (hl : l ≠ []) : q.Within q.rear := by
  have hlt := Nat.mod_lt (l.length - 1) hn
  rw [Within, h.rear, if_neg hl, h.length]
  omega

theorem Holds.within_add (hn : 0 < n) (h : q.Holds n l) (value : T) : q.Within (q.add value).rear := by
  obtain ⟨hpos, hlt⟩ := (h.add hn value).within_rear hn (by simp)
  rw [(h.add hn value).length, ← h.length] at hlt
  exact ⟨hpos, hlt⟩

theorem Holds.slides (hn : 0 < n) (h : q.Holds n l) : Slides n l q where
  contents := h.keeps.contents hn
  length := h.length
  full := isFull_iff hn h
  first hl := by
    have hpos := List.length_pos_iff.mpr hl
    rw [head?_rtake]
    have hget : l[l.length - n]? = some l[l.length - n] := List.getElem?_eq_getElem (by omega)
    rw [hget, h.first hget]
  last hl := by
    have hget : l.getLast? = some (l.getLast hl) := List.getLast?_eq_some_getLast hl
    rw [getLast?_rtake hn, hget, h.last hn hget]
  reads hl := ⟨h.within_front hn hl, h.within_rear hn hl⟩
  writes := h.within_add hn

/-- **The ring buffer is a sliding window.** -/
theorem foldl_add_slides (hn : 0 < n) (l : List T) : Slides n l (l.foldl add (make n)) :=
  (holds_foldl hn l).slides hn

/-- Three values in a queue for two. -/
theorem foldl_add_slides_three : Slides 2 [1, 2, 3] ([1, 2, 3].foldl add (make 2)) :=
  foldl_add_slides (by decide) [1, 2, 3]

end PollServer.Queue
