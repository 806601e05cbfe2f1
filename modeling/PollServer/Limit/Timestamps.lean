import Mathlib.Data.List.TakeWhile
import PollServer.Model.Timestamps

/-! `OrderedHashSet` against a map in the order of insertion, and the scan of
`MostRecentTimestamps` against a look at all of its entries. As nothing is ever put into
`mapper`, the list has every entry that was inserted. -/

namespace PollServer

open Lib

section Ordered

variable {Key Value : Type} [DecidableEq Key]

inductive SetOp (Key Value : Type) where
  | insert (key : Key) (value : Value)
  | remove (key : Key)

namespace SetOp

def key : SetOp Key Value → Key
  | insert key _ => key
  | remove key => key

def entry? : SetOp Key Value → Option (Key × Value)
  | insert key value => some (key, value)
  | remove _ => none

def apply (set : OrderedHashSet Key Value) : SetOp Key Value → OrderedHashSet Key Value
  | insert key value => set.insert key value
  | remove key => set.remove key

/-- The keys of which the last operation is an insert, in the order of these inserts. -/
def live : List (SetOp Key Value) → List (Key × Value)
  | [] => []
  | insert key value :: ops =>
    if ∃ op ∈ ops, op.key = key then live ops else (key, value) :: live ops
  | remove _ :: ops => live ops

omit [DecidableEq Key] in
theorem filterMap_insert (key : Key) (value : Value) (ops : List (SetOp Key Value)) :
    (insert key value :: ops).filterMap entry? = (key, value) :: ops.filterMap entry? := rfl

theorem length_live_le (ops : List (SetOp Key Value)) :
    (live ops).length ≤ (ops.filterMap entry?).length := by
  induction ops with
  | nil => exact le_rfl
  | cons op ops ih =>
    cases op with
    | insert key value =>
      rw [live, filterMap_insert, List.length_cons]
      split_ifs
      · exact ih.trans (Nat.le_succ _)
      · exact Nat.succ_le_succ ih
    | remove key => exact ih

/-- All that was inserted is live if no key was touched again. -/
theorem live_eq_iff (ops : List (SetOp Key Value)) :
    ops.filterMap entry? = live ops ↔
      ops.Pairwise fun op later => ∀ key value, op = insert key value → later.key ≠ key := by
  induction ops with
  | nil => exact iff_of_true rfl List.Pairwise.nil
  | cons op ops ih =>
    rw [List.pairwise_cons]
    cases op with
    | insert key value =>
      rw [live, filterMap_insert]
      split_ifs with htouched
      · obtain ⟨later, hmem, hkey⟩ := htouched
        apply iff_of_false
        · intro heq
          have hlen := congrArg List.length heq
          have hle := length_live_le ops
          rw [List.length_cons] at hlen
          omega
        · intro h
          exact h.1 later hmem key value rfl hkey
      · rw [List.cons_eq_cons, ih]
        constructor
        · rintro ⟨-, hops⟩
          refine ⟨fun later hmem key' value' heq hkey => ?_, hops⟩
          cases heq
          exact htouched ⟨later, hmem, hkey⟩
        · exact fun h => ⟨rfl, h.2⟩
    | remove key =>
      refine ih.trans ⟨fun h => ⟨fun later _ key' value' heq => ?_, h⟩, fun h => h.2⟩
      cases heq

end SetOp

open SetOp

namespace OrderedHashSet

/-- What iteration yields. -/
def entries (set : OrderedHashSet Key Value) : List (Key × Value) :=
  set.list.map fun node => (node.first, node.second)

/-- The set has the live keys, in their order, and an index of them. -/
structure Refines (ops : List (SetOp Key Value)) (set : OrderedHashSet Key Value) : Prop where
  entries : set.entries = live ops
  size : set.size = (live ops).length
  keys : ∀ key, key ∈ set.mapper ↔ ∃ value, (key, value) ∈ live ops
  nodes : ∀ key iterator, set.mapper.find key = some (key, iterator) →
    ∃ node ∈ set.list, node.iterator = iterator ∧ node.first = key

theorem foldl_apply (ops : List (SetOp Key Value)) (set : OrderedHashSet Key Value)
    (h : set.mapper = .empty) :
    (ops.foldl apply set).mapper = .empty ∧
      (ops.foldl apply set).entries = set.entries ++ ops.filterMap entry? := by
  induction ops generalizing set with
  | nil => exact ⟨h, (List.append_nil _).symm⟩
  | cons op ops ih =>
    cases op with
    | insert key value =>
      obtain ⟨hmapper, hentries⟩ := ih (set.insert key value) (set.mapper_insert h key value)
      refine ⟨hmapper, hentries.trans ?_⟩
      rw [OrderedHashSet.entries, set.list_insert h, List.map_append, List.append_assoc,
        filterMap_insert]
      rfl
    | remove key =>
      rw [List.foldl_cons, apply, set.remove_eq h]
      exact ih set h

/-- **The set is an insertion-ordered map**, with its index, only as long as nothing is
inserted; what it yields is right as long as no key that was inserted is touched again. -/
theorem insert_refines (ops : List (SetOp Key Value)) :
    (Refines ops (ops.foldl apply empty) ↔ ∀ op ∈ ops, ∃ key, op = .remove key) ∧
    ((ops.foldl apply (empty : OrderedHashSet Key Value)).entries = live ops ∧
        (ops.foldl apply (empty : OrderedHashSet Key Value)).size = (live ops).length ↔
      ops.Pairwise fun op later => ∀ key value, op = .insert key value → later.key ≠ key) := by
  obtain ⟨hmapper, hentries⟩ := foldl_apply ops (empty : OrderedHashSet Key Value) rfl
  set set' := ops.foldl apply (empty : OrderedHashSet Key Value)
  have hsize : set'.size = set'.entries.length := by
    rw [size, OrderedHashSet.entries, List.length_map]
  have hyields : set'.entries = ops.filterMap entry? := hentries
  constructor
  · constructor
    · intro h
      have hlive : live ops = [] := by
        rw [List.eq_nil_iff_forall_not_mem]
        intro u hu
        have hmem := (h.keys u.1).mpr ⟨u.2, hu⟩
        rw [hmapper] at hmem
        exact Keyed.not_mem_empty _ hmem
      have hnone : ops.filterMap entry? = [] := by rw [← hyields, h.entries, hlive]
      intro op hop
      cases op with
      | insert key value =>
        have hsome := List.filterMap_eq_nil_iff.mp hnone _ hop
        cases hsome
      | remove key => exact ⟨key, rfl⟩
    · intro h
      have hnone : ops.filterMap entry? = [] := by
        apply List.filterMap_eq_nil_iff.mpr
        intro op hop
        obtain ⟨key, rfl⟩ := h op hop
        rfl
      have hlive : live ops = [] := by
        have hle := length_live_le ops
        rw [hnone] at hle
        exact List.length_eq_zero_iff.mp (Nat.le_zero.mp hle)
      refine ⟨by rw [hyields, hnone, hlive], by rw [hsize, hyields, hnone, hlive], ?_, ?_⟩
      · intro key
        rw [hmapper, hlive]
        simp
      · intro key iterator hfind
        rw [hmapper, Keyed.find_empty] at hfind
        cases hfind
  · rw [hsize, hyields, ← live_eq_iff]
    exact ⟨fun h => h.1, fun h => ⟨h, congrArg List.length h⟩⟩

/-- A socket that is updated twice has two entries. -/
theorem insert_duplicates :
    ¬∀ (Key Value : Type) [DecidableEq Key] (ops : List (SetOp Key Value)),
      Refines ops (ops.foldl apply empty) := by
  intro h
  exact absurd (h ℤ ℤ [.insert 5 10, .insert 5 20]).entries (by decide)

end OrderedHashSet

end Ordered

namespace MostRecentTimestamps

theorem mem_foldl_insert (l : List (Node ℤ ℤ)) (sockets : List ℤ) (socket : ℤ) :
    socket ∈ l.foldl (fun sockets node => sockets.insert node.first) sockets ↔
      socket ∈ sockets ∨ ∃ node ∈ l, node.first = socket := by
  induction l generalizing sockets with
  | nil => simp
  | cons node l ih =>
    rw [List.foldl_cons, ih, List.mem_insert_iff]
    simp only [List.mem_cons, exists_eq_or_imp]
    tauto

theorem nodup_foldl_insert (l : List (Node ℤ ℤ)) {sockets : List ℤ} (h : sockets.Nodup) :
    (l.foldl (fun sockets node => sockets.insert node.first) sockets).Nodup := by
  induction l generalizing sockets with
  | nil => exact h
  | cons node l ih => exact ih h.insert

theorem mem_getSockets (m : MostRecentTimestamps) (sockets : List ℤ) (timeout now socket : ℤ) :
    socket ∈ m.getSocketsLessThanTimestamp sockets timeout now ↔
      socket ∈ sockets ∨
        socket ∈ (m.pairs.takeWhile fun u => u.2 ≤ now - timeout).map Prod.fst := by
  have hpred : ((fun u : ℤ × ℤ => decide (u.2 ≤ now - timeout)) ∘ fun node : Node ℤ ℤ =>
      (node.first, node.second)) = fun node => decide ¬(now - node.second < timeout) := by
    funext node
    exact decide_eq_decide.mpr (by dsimp only; omega)
  rw [getSocketsLessThanTimestamp, mem_foldl_insert, pairs, List.takeWhile_map, hpred]
  simp [List.mem_map]

/-- An operation, with the time that it gets from the clock. -/
inductive Stamp where
  | updateFor (sockets : List ℤ) (time : ℤ)
  | updateSingle (socket time : ℤ)
  | reset (socket : ℤ)
  | remove (sockets : List ℤ)
  | removeSingle (socket : ℤ)
  deriving DecidableEq

namespace Stamp

def apply (m : MostRecentTimestamps) : Stamp → MostRecentTimestamps
  | updateFor sockets time => m.updateFor sockets time
  | updateSingle socket time => m.updateSingle socket time
  | reset socket => m.reset socket
  | remove sockets => m.remove sockets
  | removeSingle socket => m.removeSingle socket

def time? : Stamp → Option ℤ
  | updateFor _ time => some time
  | updateSingle _ time => some time
  | _ => none

/-- The entries that the operation puts behind the list. -/
def entries : Stamp → List (ℤ × ℤ)
  | updateFor sockets time => sockets.map fun socket => (socket, time)
  | updateSingle socket time => [(socket, time)]
  | reset socket => [(socket, 0)]
  | _ => []

/-- The operation updates the socket or removes it. -/
def Touches (socket : ℤ) : Stamp → Prop
  | updateFor sockets _ => socket ∈ sockets
  | updateSingle s _ => s = socket
  | reset _ => False
  | remove sockets => socket ∈ sockets
  | removeSingle s => s = socket

end Stamp

def clock (ops : List Stamp) : List ℤ := ops.filterMap Stamp.time?

def written (ops : List Stamp) : List (ℤ × ℤ) := ops.flatMap Stamp.entries

theorem foldl_stamp (ops : List Stamp) {m : MostRecentTimestamps} (h : m.Unmapped) :
    (ops.foldl Stamp.apply m).pairs = m.pairs ++ written ops := by
  induction ops generalizing m with
  | nil => exact (List.append_nil _).symm
  | cons op ops ih =>
    have hop : (Stamp.apply m op).Unmapped ∧ (Stamp.apply m op).pairs = m.pairs ++ op.entries := by
      cases op with
      | updateFor sockets time => exact updateFor_spec h sockets time
      | updateSingle socket time =>
        exact ⟨unmapped_updateSingle h socket time, pairs_updateSingle h socket time⟩
      | reset socket => exact ⟨unmapped_updateSingle h socket 0, pairs_updateSingle h socket 0⟩
      | remove sockets =>
        rw [Stamp.apply, remove_eq h]
        exact ⟨h, (List.append_nil _).symm⟩
      | removeSingle socket =>
        rw [Stamp.apply, removeSingle_eq h]
        exact ⟨h, (List.append_nil _).symm⟩
    rw [List.foldl_cons, ih hop.1, hop.2, List.append_assoc]
    rfl

/-- **What the scan owes its caller**: the sockets of all old entries, and with them those
that were reset and not touched since. -/
structure Complete (ops : List Stamp) : Prop where
  scan : ∀ (sockets : List ℤ) (timeout now : ℤ), 0 < timeout → (∀ t ∈ clock ops, t ≤ now) →
    ∀ socket, socket ∈ (ops.foldl Stamp.apply empty).getSocketsLessThanTimestamp sockets timeout now ↔
      socket ∈ sockets ∨
        ∃ t, (socket, t) ∈ (ops.foldl Stamp.apply empty).pairs ∧ timeout ≤ now - t
  reset : ∀ before socket after, ops = before ++ .reset socket :: after →
    (∀ op ∈ after, ¬op.Touches socket) → ∀ (sockets : List ℤ) (timeout now : ℤ), 0 < timeout →
    (∀ t ∈ clock ops, t ≤ now) → timeout ≤ now →
      socket ∈ (ops.foldl Stamp.apply empty).getSocketsLessThanTimestamp sockets timeout now

/-- The socket of every entry is that of one in front of all that are later. -/
def Unhidden (l : List (ℤ × ℤ)) : Prop :=
  ∀ u ∈ l, u.1 ∈ (l.takeWhile fun v => v.2 ≤ u.2).map Prod.fst

/-- A scan with any bound finds all that is old if nothing is hidden. -/
theorem Unhidden.mem_takeWhile {l : List (ℤ × ℤ)} (h : Unhidden l) {socket t bound : ℤ}
    (hu : (socket, t) ∈ l) (ht : t ≤ bound) :
    socket ∈ (l.takeWhile fun v => v.2 ≤ bound).map Prod.fst := by
  have hmono : ∀ l : List (ℤ × ℤ),
      (l.takeWhile fun v => v.2 ≤ t) <+: l.takeWhile fun v => v.2 ≤ bound := by
    intro l
    induction l with
    | nil => exact List.prefix_refl _
    | cons v l ih =>
      by_cases hv : v.2 ≤ t
      · rw [List.takeWhile_cons_of_pos (by simpa using hv),
          List.takeWhile_cons_of_pos (by simpa using hv.trans ht)]
        exact (List.prefix_cons_inj v).mpr ih
      · rw [List.takeWhile_cons_of_neg (by simpa using hv)]
        exact List.nil_prefix
  exact ((hmono l).map Prod.fst).subset (h (socket, t) hu)

theorem complete_iff (ops : List Stamp) : Complete ops ↔ Unhidden (written ops) := by
  have hpairs : (ops.foldl Stamp.apply empty).pairs = written ops := foldl_stamp ops rfl
  constructor
  · intro h u hu
    obtain ⟨now, hnow⟩ := (insert (u.2 + 1) (clock ops).toFinset).exists_le
    have hlater : u.2 + 1 ≤ now := hnow _ (Finset.mem_insert_self _ _)
    have hclock : ∀ t ∈ clock ops, t ≤ now := fun t ht =>
      hnow t (Finset.mem_insert_of_mem (List.mem_toFinset.mpr ht))
    have hscan := (h.scan [] (now - u.2) now (by omega) hclock u.1).mpr
      (Or.inr ⟨u.2, by rw [hpairs]; exact hu, le_rfl⟩)
    rw [mem_getSockets, hpairs, sub_sub_cancel] at hscan
    exact hscan.resolve_left List.not_mem_nil
  · intro h
    have hscan : ∀ (sockets : List ℤ) (timeout now socket : ℤ),
        socket ∈ (ops.foldl Stamp.apply empty).getSocketsLessThanTimestamp sockets timeout now ↔
          socket ∈ sockets ∨ ∃ t, (socket, t) ∈ written ops ∧ timeout ≤ now - t := by
      intro sockets timeout now socket
      rw [mem_getSockets, hpairs]
      refine or_congr_right ⟨fun hmem => ?_, ?_⟩
      · obtain ⟨⟨s, t⟩, hu, rfl⟩ := List.mem_map.mp hmem
        have hold := List.mem_takeWhile_imp hu
        rw [decide_eq_true_eq] at hold
        dsimp only at hold
        exact ⟨t, (List.takeWhile_prefix _).subset hu, by omega⟩
      · intro hold
        obtain ⟨t, hu, ht⟩ := hold
        exact h.mem_takeWhile hu (by omega)
    constructor
    · intro sockets timeout now _ _ socket
      rw [hscan, hpairs]
    · intro before socket after hops _ sockets timeout now _ _ hle
      refine (hscan _ _ _ _).mpr (Or.inr ⟨0, ?_, by omega⟩)
      rw [hops, written, List.flatMap_append, List.flatMap_cons]
      exact List.mem_append_right _ (List.mem_append_left _ (List.mem_singleton_self _))

theorem mem_takeWhile_entries {before after : List Stamp} {op : Stamp} {u : ℤ × ℤ}
    (hbefore : ∀ v ∈ written before, v.2 ≤ u.2) (hop : ∀ v ∈ op.entries, v.2 ≤ u.2)
    (hu : u ∈ op.entries) :
    u.1 ∈ ((written (before ++ op :: after)).takeWhile fun v => v.2 ≤ u.2).map Prod.fst := by
  have hsplit : written (before ++ op :: after) =
      (written before ++ op.entries) ++ written after := by
    rw [written, List.flatMap_append, List.flatMap_cons, ← List.append_assoc]
    rfl
  rw [hsplit, List.takeWhile_append_of_pos, List.map_append]
  · exact List.mem_append_left _ (List.mem_map_of_mem (List.mem_append_right _ hu))
  · intro v hv
    rw [decide_eq_true_eq]
    exact (List.mem_append.mp hv).elim (hbefore v) (hop v)

/-- Under a clock that never goes back, an update is in front of all that is later. -/
theorem unhidden_update {ops before after : List Stamp} {op : Stamp} {time : ℤ}
    (hops : ops = before ++ op :: after) (hc : (clock ops).Pairwise (· ≤ ·))
    (h0 : ∀ t ∈ clock ops, 0 ≤ t) (htime : op.time? = some time) {u : ℤ × ℤ}
    (hu : u ∈ op.entries) (hall : ∀ v ∈ op.entries, v.2 = time) :
    u.1 ∈ ((written ops).takeWhile fun v => v.2 ≤ u.2).map Prod.fst := by
  subst hops
  have hclock : clock (before ++ op :: after) = clock before ++ time :: clock after := by
    rw [clock, List.filterMap_append, List.filterMap_cons_some htime]
    rfl
  rw [hclock] at hc h0
  have hnow : 0 ≤ time := h0 time (by simp)
  apply mem_takeWhile_entries
  · intro v hv
    rw [hall u hu]
    obtain ⟨stamp, hstamp, hv⟩ := List.mem_flatMap.mp hv
    have hle : ∀ t, stamp.time? = some t → t ≤ time := fun t ht =>
      (List.pairwise_append.mp hc).2.2 t (List.mem_filterMap.mpr ⟨stamp, hstamp, ht⟩) time
        List.mem_cons_self
    cases stamp with
    | updateFor sockets t =>
      obtain ⟨socket, -, rfl⟩ := List.mem_map.mp hv
      exact hle t rfl
    | updateSingle socket t =>
      rw [List.mem_singleton.mp hv]
      exact hle t rfl
    | reset socket =>
      rw [List.mem_singleton.mp hv]
      exact hnow
    | _ => cases hv
  · intro v hv
    rw [hall u hu, hall v hv]
  · exact hu

/-- **The scan misses nothing** if and only if nothing in the list is hidden; with a clock
that neither goes back nor is negative, if and only if every socket that is reset is in
front of the first entry that is later than 0. -/
theorem scan_complete (ops : List Stamp) :
    (Complete ops ↔ Unhidden (written ops)) ∧
    ((clock ops).Pairwise (· ≤ ·) → (∀ t ∈ clock ops, 0 ≤ t) →
      (Unhidden (written ops) ↔ ∀ socket, .reset socket ∈ ops →
        socket ∈ ((written ops).takeWhile fun v => v.2 ≤ 0).map Prod.fst)) := by
  refine ⟨complete_iff ops, fun hc h0 => ⟨fun h socket hreset => ?_, fun h u hu => ?_⟩⟩
  · exact h (socket, 0) (List.mem_flatMap.mpr ⟨_, hreset, List.mem_singleton_self _⟩)
  · obtain ⟨op, hop, hu⟩ := List.mem_flatMap.mp hu
    obtain ⟨before, after, hops⟩ := List.append_of_mem hop
    cases op with
    | updateFor sockets time =>
      refine unhidden_update hops hc h0 rfl hu fun v hv => ?_
      obtain ⟨socket, -, rfl⟩ := List.mem_map.mp hv
      rfl
    | updateSingle socket time =>
      refine unhidden_update hops hc h0 rfl hu fun v hv => ?_
      rw [List.mem_singleton.mp hv]
    | reset socket =>
      rw [List.mem_singleton.mp hu]
      exact h socket hop
    | _ => cases hu

/-- Sockets that are reset before anything is updated. -/
theorem scan_complete_first : Complete [.reset 5, .updateSingle 6 10] :=
  ((scan_complete [.reset 5, .updateSingle 6 10]).1.trans
    ((scan_complete [.reset 5, .updateSingle 6 10]).2 (by decide) (by decide))).mpr
      fun socket h => by simp_all [written, Stamp.entries]

/-- Socket 5 is reset behind an update of socket 6, and not found at time 12. -/
theorem scan_hides : ¬∀ ops : List Stamp, (clock ops).Pairwise (· ≤ ·) → Complete ops := by
  intro h
  have hscan := ((h [.updateSingle 6 10, .reset 5] (by decide)).scan [] 10 12 (by decide)
    (by decide) 5).mpr (Or.inr ⟨0, by decide, by decide⟩)
  exact absurd hscan (by decide)

end MostRecentTimestamps

end PollServer
