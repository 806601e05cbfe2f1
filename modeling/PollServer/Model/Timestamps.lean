import PollServer.Lib.Keyed

/-! `OrderedHashSet.hpp` and `MostRecentTimestamps.hpp`. Of `std::time_t` the model takes
all integers. -/

namespace PollServer

open Lib

/-- An element of the list; `iterator` is what an iterator to it is equal to. -/
structure Node (Key Value : Type) where
  iterator : ℕ
  first : Key
  second : Value
  deriving DecidableEq

structure OrderedHashSet (Key Value : Type) where
  list : List (Node Key Value)
  mapper : Keyed (Prod.fst : Key × ℕ → Key)
  fresh : ℕ

namespace OrderedHashSet

variable {Key Value : Type} [DecidableEq Key] (set : OrderedHashSet Key Value)

def empty : OrderedHashSet Key Value := ⟨[], .empty, 0⟩

def size : ℕ := set.list.length

def erase (list : List (Node Key Value)) (iterator : ℕ) : List (Node Key Value) :=
  list.filter fun node => node.iterator ≠ iterator

def insert (key : Key) (value : Value) : OrderedHashSet Key Value :=
  let list := set.list ++ [⟨set.fresh, key, value⟩]
  match set.mapper.find key with
  | none => ⟨list, set.mapper, set.fresh + 1⟩
  | some (_, iterator) => ⟨erase list iterator, set.mapper.put (key, set.fresh), set.fresh + 1⟩

def remove (key : Key) : OrderedHashSet Key Value :=
  match set.mapper.find key with
  | none => set
  | some (_, iterator) => { set with list := erase set.list iterator, mapper := set.mapper.erase key }

/-- Nothing is ever put into `mapper`. -/
theorem mapper_insert (h : set.mapper = .empty) (key : Key) (value : Value) :
    (set.insert key value).mapper = .empty := by
  simp [insert, h]

theorem remove_eq (h : set.mapper = .empty) (key : Key) : set.remove key = set := by
  simp [remove, h]

theorem list_insert (h : set.mapper = .empty) (key : Key) (value : Value) :
    (set.insert key value).list = set.list ++ [⟨set.fresh, key, value⟩] := by
  simp [insert, h]

end OrderedHashSet

structure MostRecentTimestamps where
  timestamps : OrderedHashSet ℤ ℤ

namespace MostRecentTimestamps

variable (m : MostRecentTimestamps)

def empty : MostRecentTimestamps := ⟨.empty⟩

def size : ℕ := m.timestamps.size

def updateSingle (socket time : ℤ) : MostRecentTimestamps := ⟨m.timestamps.insert socket time⟩

def updateFor (sockets : List ℤ) (time : ℤ) : MostRecentTimestamps :=
  sockets.foldl (fun m socket => m.updateSingle socket time) m

def reset (socket : ℤ) : MostRecentTimestamps := m.updateSingle socket 0

def removeSingle (socket : ℤ) : MostRecentTimestamps := ⟨m.timestamps.remove socket⟩

def remove (sockets : List ℤ) : MostRecentTimestamps := sockets.foldl removeSingle m

/-- The loop stops at the first time that is recent. -/
def getSocketsLessThanTimestamp (sockets : List ℤ) (timeout now : ℤ) : List ℤ :=
  (m.timestamps.list.takeWhile fun node => ¬(now - node.second < timeout)).foldl
    (fun sockets node => sockets.insert node.first) sockets

/-- The sockets of the list with their times. -/
def pairs : List (ℤ × ℤ) := m.timestamps.list.map fun node => (node.first, node.second)

/-- As long as nothing is in `mapper`, the list is all there is. -/
def Unmapped : Prop := m.timestamps.mapper = .empty

theorem size_eq : m.size = m.pairs.length := by simp [size, OrderedHashSet.size, pairs]

variable {m} (h : m.Unmapped)
include h

theorem unmapped_updateSingle (socket time : ℤ) : (m.updateSingle socket time).Unmapped :=
  m.timestamps.mapper_insert h socket time

theorem pairs_updateSingle (socket time : ℤ) :
    (m.updateSingle socket time).pairs = m.pairs ++ [(socket, time)] := by
  simp only [pairs, updateSingle, m.timestamps.list_insert h, List.map_append, List.map_cons,
    List.map_nil]

theorem updateFor_spec (sockets : List ℤ) (time : ℤ) :
    (m.updateFor sockets time).Unmapped ∧
      (m.updateFor sockets time).pairs = m.pairs ++ sockets.map fun socket => (socket, time) := by
  induction sockets generalizing m with
  | nil => exact ⟨h, by simp [updateFor]⟩
  | cons socket sockets ih =>
    obtain ⟨h', hpairs⟩ := ih (unmapped_updateSingle h socket time)
    refine ⟨h', hpairs.trans ?_⟩
    rw [pairs_updateSingle h, List.append_assoc]
    rfl

theorem removeSingle_eq (socket : ℤ) : m.removeSingle socket = m := by
  rw [removeSingle, m.timestamps.remove_eq h]

theorem remove_eq (sockets : List ℤ) : m.remove sockets = m := by
  induction sockets with
  | nil => rfl
  | cons socket sockets ih =>
    rw [remove, List.foldl_cons, removeSingle_eq h]
    exact ih

end MostRecentTimestamps

end PollServer
