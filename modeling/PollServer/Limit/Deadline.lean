import PollServer.Lib.Recent
import PollServer.Limit.Ring

/-! `Deadline` counts what lies in the window that ends now. -/

namespace PollServer

open Lib

namespace Timespec

def nanos (t : Timespec) : ℤ := t.sec * 10 ^ 9 + t.nsec

/-- As `clock_gettime` fills it in. -/
def Normal (t : Timespec) : Prop := 0 ≤ t.nsec ∧ t.nsec < 10 ^ 9

instance (t : Timespec) : Decidable t.Normal := inferInstanceAs (Decidable (_ ∧ _))

theorem differenceInNanos_eq (left right : Timespec) :
    differenceInNanos left right = left.nanos - right.nanos := by
  unfold differenceInNanos nanos
  ring

theorem after_iff {left right : Timespec} (hl : left.Normal) (hr : right.Normal) :
    left.after right ↔ right.nanos ≤ left.nanos := by
  unfold after nanos
  unfold Normal at hl hr
  omega

end Timespec

/-- Times that a clock that never goes back gives one after the other. -/
structure Clocked (times : List Timespec) : Prop where
  normal : ∀ t ∈ times, t.Normal
  sorted : times.Pairwise fun t t' => t'.after t

theorem Clocked.sublist {times times' : List Timespec} (h : Clocked times)
    (hs : times'.Sublist times) : Clocked times' :=
  ⟨fun t ht => h.normal t (hs.subset ht), h.sorted.sublist hs⟩

theorem Clocked.le_now {times : List Timespec} {now : Timespec} (h : Clocked (times ++ [now])) :
    ∀ t ∈ times, now.after t := fun t ht =>
  (List.pairwise_append.mp h.sorted).2.2 t ht now List.mem_cons_self

namespace Deadline

/-- At most `maxTime` ago. -/
def recent (d : Deadline) (now t : Timespec) : Bool := differenceInNanos now t ≤ d.maxTime

/-- In the window of length `maxTime` that begins at `start`. -/
def within (d : Deadline) (start : ℤ) (t : Timespec) : Bool :=
  start ≤ t.nanos ∧ t.nanos ≤ start + d.maxTime

/-- `increment` at each of the times. -/
def incrementAll (d : Deadline) (times : List Timespec) : Deadline := times.foldl increment d

variable {b : Build} {d : Deadline} {n : ℕ} {times times' : List Timespec} {now v : Timespec}

@[simp] theorem maxTime_incrementAll (d : Deadline) (times : List Timespec) :
    (d.incrementAll times).maxTime = d.maxTime := by
  induction times generalizing d with
  | nil => rfl
  | cons t times ih => exact ih (d.increment t)

@[simp] theorem maxHealthCheckTime_incrementAll (d : Deadline) (times : List Timespec) :
    (d.incrementAll times).maxHealthCheckTime = d.maxHealthCheckTime := by
  induction times generalizing d with
  | nil => rfl
  | cons t times ih => exact ih (d.increment t)

theorem recent_incrementAll (d : Deadline) (times : List Timespec) :
    (d.incrementAll times).recent = d.recent := by
  unfold recent
  rw [maxTime_incrementAll]

theorem incrementAll_append (d : Deadline) (times more : List Timespec) :
    d.incrementAll (times ++ more) = (d.incrementAll times).incrementAll more :=
  List.foldl_append

theorem queue_incrementAll (d : Deadline) (times : List Timespec) :
    (d.incrementAll times).queue = times.foldl Queue.add d.queue := by
  induction times generalizing d with
  | nil => rfl
  | cons t times ih => exact ih (d.increment t)

/-- `d` has counted these times, with a queue for `n` of them. -/
def Counts (d : Deadline) (n : ℕ) (times : List Timespec) : Prop := d.queue.Holds n times

/-- From an empty queue on, a deadline has counted what it was given. -/
theorem counts_incrementAll (hn : 0 < n) (hd : d.queue = Queue.make n) (times : List Timespec) :
    (d.incrementAll times).Counts n times := by
  rw [Counts, queue_incrementAll, hd]
  exact Queue.holds_foldl hn times

theorem recent_lasting (d : Deadline) (now : Timespec) (h : Clocked times) :
    Lasting (d.recent now) times := by
  have hnormal := h.normal
  refine List.Pairwise.imp_of_mem (fun {t t'} ht ht' hle hr => ?_) h.sorted
  rw [Timespec.after_iff (hnormal t' ht') (hnormal t ht)] at hle
  simp only [recent, Timespec.differenceInNanos_eq, decide_eq_true_eq] at hr ⊢
  omega

theorem recent_of_after {now' t : Timespec} (hn : now.Normal) (hn' : now'.Normal)
    (h : now'.after now) (hr : d.recent now' t = true) : d.recent now t = true := by
  rw [Timespec.after_iff hn' hn] at h
  simp only [recent, Timespec.differenceInNanos_eq, decide_eq_true_eq] at hr ⊢
  omega

theorem recent_of_within {start : ℤ} {t t' : Timespec} (h : d.within start t = true)
    (h' : d.within start t' = true) : d.recent t t' = true := by
  simp only [within, decide_eq_true_eq] at h h'
  simp only [recent, Timespec.differenceInNanos_eq, decide_eq_true_eq]
  omega

/-- The queue is full, and its first value is the oldest of the last `n`. -/
theorem breached_full (hn : 0 < n) (h : d.Counts n times) (hl : n ≤ times.length)
    (hv : (times.rtake n).head? = some v) :
    d.breached b now = (do assert b (now.after v); return d.recent now v) := by
  have hne : times ≠ [] := by
    rintro rfl
    simp at hl
    omega
  have hfirst : d.queue.first = v := h.first (by rwa [← head?_rtake])
  have hfront : d.queue.front ≠ -1 := by
    rw [h.front, if_neg hne]
    omega
  rw [breached, if_pos ((Queue.isFull_iff hn h).mpr hl), hfirst, assert_of hfront]
  rfl

theorem breached_not_full (hn : 0 < n) (h : d.Counts n times) (hl : ¬n ≤ times.length) :
    d.breached b now = .ok false := by
  rw [breached, if_neg fun hf => hl ((Queue.isFull_iff hn h).mp hf)]
  rfl

theorem healthCheckNeeded_none (h : d.Counts n []) : d.healthCheckNeeded b now = .ok false := by
  have hrear : d.queue.rear = -1 := h.rear
  rw [healthCheckNeeded, if_neg (by simp [hrear])]
  rfl

theorem healthCheckNeeded_some (hn : 0 < n) (h : d.Counts n times) (hv : times.getLast? = some v) :
    d.healthCheckNeeded b now =
      (do assert b (now.after v); return d.maxHealthCheckTime < differenceInNanos now v) := by
  have hne : times ≠ [] := by
    rintro rfl
    simp at hv
  have hlast : d.queue.last = v := h.last hn hv
  have hrear : d.queue.rear ≠ -1 := by
    rw [h.rear, if_neg hne]
    omega
  rw [healthCheckNeeded, if_pos hrear, hlast, assert_of hrear]
  rfl

theorem answers_congr {d' : Deadline} (hn : 0 < n) (h : d.Counts n times) (h' : d'.Counts n times')
    (hr : times.rtake n = times'.rtake n) (hm : d.maxTime = d'.maxTime)
    (hc : d.maxHealthCheckTime = d'.maxHealthCheckTime) :
    d.breached b now = d'.breached b now ∧
      d.healthCheckNeeded b now = d'.healthCheckNeeded b now := by
  have hle := le_length_of_rtake hr
  have hlast : times.getLast? = times'.getLast? := by
    rw [← getLast?_rtake hn times, hr, getLast?_rtake hn]
  constructor
  · by_cases hl : n ≤ times.length
    · obtain ⟨v, hv⟩ : ∃ v, (times.rtake n).head? = some v := by
        rw [head?_rtake]
        exact ⟨_, List.getElem?_eq_getElem (by omega)⟩
      rw [breached_full hn h hl hv, breached_full hn h' (hle.mp hl) (by rw [← hr, hv]), recent,
        recent, hm]
    · rw [breached_not_full hn h hl, breached_not_full hn h' fun hl' => hl (hle.mpr hl')]
  · cases hv : times.getLast? with
    | none =>
      have hnil := List.getLast?_eq_none_iff.mp hv
      have hnil' := List.getLast?_eq_none_iff.mp (hlast ▸ hv)
      subst hnil hnil'
      rw [healthCheckNeeded_none h, healthCheckNeeded_none h']
    | some v =>
      rw [healthCheckNeeded_some hn h hv, healthCheckNeeded_some hn h' (hlast ▸ hv), hc]

/-- Full is: at least `n` of the times counted are recent. -/
theorem breached_counts (hn : 0 < n) (h : d.Counts n times) (hc : Clocked (times ++ [now])) :
    d.breached b now = .ok (decide (n ≤ times.countP (d.recent now))) := by
  have hlasting := d.recent_lasting now (hc.sublist (List.sublist_append_left _ _))
  by_cases hl : n ≤ times.length
  · obtain ⟨v, hv⟩ : ∃ v, (times.rtake n).head? = some v := by
      rw [head?_rtake]
      exact ⟨_, List.getElem?_eq_getElem (by omega)⟩
    have hmem : v ∈ times := List.mem_of_mem_drop (List.mem_of_mem_head? hv)
    have hv' : d.recent now v = decide (n ≤ times.countP (d.recent now)) := by
      rw [Bool.eq_iff_iff, decide_eq_true_eq, le_countP_iff_head hlasting hl hv]
    rw [breached_full hn h hl hv, assert_of (hc.le_now v hmem), ← hv']
    rfl
  · have hlt : ¬n ≤ times.countP (d.recent now) :=
      fun hle => hl (hle.trans List.countP_le_length)
    rw [breached_not_full hn h hl, decide_eq_false hlt]

theorem healthCheckNeeded_counts (hn : 0 < n) (h : d.Counts n times)
    (hc : Clocked (times ++ [now])) :
    d.healthCheckNeeded b now =
      .ok (times.getLast?.any fun t => d.maxHealthCheckTime < differenceInNanos now t) := by
  cases hv : times.getLast? with
  | none =>
    have hnil := List.getLast?_eq_none_iff.mp hv
    subst hnil
    exact healthCheckNeeded_none h
  | some v =>
    rw [healthCheckNeeded_some hn h hv, assert_of (hc.le_now v (List.mem_of_getLast? hv))]
    rfl

/-- **A `Deadline` answers for exactly what lies in its window, and for nothing that was
counted before the last `n` times.** -/
theorem deadline_window (hn : 0 < n) (hd : d.queue = Queue.make n) (hc : Clocked (times ++ [now])) :
    (d.incrementAll times).breached b now =
        .ok (decide (n ≤ times.countP fun t => differenceInNanos now t ≤ d.maxTime)) ∧
      (d.incrementAll times).healthCheckNeeded b now =
        .ok (times.getLast?.any fun t => d.maxHealthCheckTime < differenceInNanos now t) ∧
      ∀ times', times'.rtake n = times.rtake n →
        (d.incrementAll times').breached b now = (d.incrementAll times).breached b now ∧
          (d.incrementAll times').healthCheckNeeded b now =
            (d.incrementAll times).healthCheckNeeded b now := by
  have hcounts := counts_incrementAll hn hd
  refine ⟨?_, ?_, fun times' hr => ?_⟩
  · have hb := breached_counts (b := b) hn (hcounts times) hc
    unfold recent at hb
    rwa [maxTime_incrementAll] at hb
  · rw [healthCheckNeeded_counts hn (hcounts times) hc, maxHealthCheckTime_incrementAll]
  · exact answers_congr hn (hcounts times') (hcounts times) hr (by simp) (by simp)

/-- Two times in a second fill a queue for two. -/
theorem deadline_window_two :
    ((make 2).incrementAll [⟨1, 0⟩, ⟨1, 500000000⟩]).breached ⟨true, .little⟩ ⟨2, 0⟩ = .ok true :=
  (deadline_window (by decide) rfl ⟨by decide, by decide⟩).1.trans rfl

end Deadline

end PollServer
