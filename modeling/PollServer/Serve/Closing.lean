import PollServer.Model.ClientInfos

/-! `ClientInfos::close`: which sockets it closes, what it leaves of the clients, and where
the load goes. `decPriority` does nothing when it is asked for more than there is. -/

namespace PollServer

open Lib

namespace ClientInfos

/-- The weights that `close` calls `decPriority` with in vain. -/
def drops : List ℤ → ClientInfos → Priority → ℕ → List ℕ
  | [], _, _, _ => []
  | socket :: sockets, cs, balancer, balancerIndex =>
    match cs.clientInfos.find socket with
    | some info =>
      let rest := drops sockets { cs with clientInfos := cs.clientInfos.erase socket }
        (balancer.decPriority balancerIndex info.deadlineMaxCount) balancerIndex
      if info.deadlineMaxCount ≤ balancer.load balancerIndex then rest
      else info.deadlineMaxCount :: rest
    | none => drops sockets cs balancer balancerIndex

def weight (cs : ClientInfos) : ℕ := cs.clientInfos.total ClientInfo.deadlineMaxCount

theorem weight_erase {cs : ClientInfos} {socket : ℤ} {info : ClientInfo}
    (h : cs.clientInfos.find socket = some info) :
    weight { cs with clientInfos := cs.clientInfos.erase socket } + info.deadlineMaxCount =
      cs.weight := cs.clientInfos.total_erase ClientInfo.deadlineMaxCount h

section Step

variable {socket : ℤ} {sockets : List ℤ} {cs : ClientInfos} {info : ClientInfo}

theorem close_found (h : cs.clientInfos.find socket = some info) (balancer : Priority)
    (balancerIndex : ℕ) :
    close (socket :: sockets) cs balancer balancerIndex =
      let r := close sockets { cs with clientInfos := cs.clientInfos.erase socket }
        (balancer.decPriority balancerIndex info.deadlineMaxCount) balancerIndex
      (socket :: r.1, r.2) := by
  rw [close, h]

theorem close_missing (h : cs.clientInfos.find socket = none) (balancer : Priority)
    (balancerIndex : ℕ) :
    close (socket :: sockets) cs balancer balancerIndex =
      close sockets cs balancer balancerIndex := by
  rw [close, h]

end Step

variable (sockets : List ℤ) (cs : ClientInfos) (balancer : Priority) (balancerIndex : ℕ)

theorem close_clients : (close sockets cs balancer balancerIndex).2.1 =
    { cs with clientInfos := cs.clientInfos.eraseAll sockets } := by
  induction sockets generalizing cs balancer with
  | nil => rfl
  | cons socket sockets ih =>
    cases h : cs.clientInfos.find socket with
    | some info =>
      rw [close_found h]
      exact ih _ _
    | none =>
      rw [close_missing h, ih, Keyed.eraseAll, Keyed.eraseAll, List.foldl_cons,
        Keyed.erase_of_not_mem _ ((Keyed.find_eq_none _).mp h)]

/-- **Each client of the set is closed once, and nothing else is.** -/
theorem close_closed (hs : sockets.Nodup) : (close sockets cs balancer balancerIndex).1 =
    sockets.filter fun socket => socket ∈ cs.clientInfos := by
  induction sockets generalizing cs balancer with
  | nil => rfl
  | cons socket sockets ih =>
    rw [List.nodup_cons] at hs
    cases h : cs.clientInfos.find socket with
    | some info =>
      rw [close_found h, List.filter_cons_of_pos (by simpa using Keyed.mem_of_find _ h)]
      refine congrArg (socket :: ·) ((ih _ _ hs.2).trans (List.filter_congr fun socket' hs' => ?_))
      rw [decide_eq_decide, Keyed.mem_erase]
      exact and_iff_left (ne_of_mem_of_not_mem hs' hs.1)
    | none =>
      rw [close_missing h, ih _ _ hs.2,
        List.filter_cons_of_neg (by simpa using (Keyed.find_eq_none _).mp h)]

theorem mem_closed {socket : ℤ} : socket ∈ (close sockets cs balancer balancerIndex).1 ↔
    socket ∈ sockets ∧ socket ∈ cs.clientInfos := by
  induction sockets generalizing cs balancer with
  | nil => simp [close]
  | cons socket' sockets ih =>
    cases h : cs.clientInfos.find socket' with
    | some info =>
      have hmem := Keyed.mem_of_find _ h
      rw [close_found h, List.mem_cons, List.mem_cons, ih, Keyed.mem_erase]
      constructor
      · rintro (rfl | ⟨hs, hm, -⟩)
        · exact ⟨Or.inl rfl, hmem⟩
        · exact ⟨Or.inr hs, hm⟩
      · rintro ⟨hs, hm⟩
        by_cases he : socket = socket'
        · exact Or.inl he
        · exact Or.inr ⟨hs.resolve_left he, hm, he⟩
    | none =>
      have hmem := (Keyed.find_eq_none _).mp h
      rw [close_missing h, ih, List.mem_cons]
      refine and_congr_left fun hm => (or_iff_right ?_).symm
      rintro rfl
      exact hmem hm

theorem close_length : (close sockets cs balancer balancerIndex).2.2.sizes.length =
    balancer.sizes.length := by
  induction sockets generalizing cs balancer with
  | nil => rfl
  | cons socket sockets ih =>
    cases h : cs.clientInfos.find socket with
    | some info =>
      rw [close_found h]
      exact (ih _ _).trans (balancer.length_decPriority _ _)
    | none => rw [close_missing h, ih]

variable {balancer balancerIndex} (hi : balancerIndex < balancer.sizes.length)
include hi

theorem close_load_other {i : ℕ} (h : i ≠ balancerIndex) :
    (close sockets cs balancer balancerIndex).2.2.load i = balancer.load i := by
  induction sockets generalizing cs balancer with
  | nil => rfl
  | cons socket sockets ih =>
    cases hf : cs.clientInfos.find socket with
    | some info =>
      rw [close_found hf]
      apply (ih _ (by simpa using hi)).trans
      rw [Priority.load_decPriority hi, if_neg fun h' => h h'.1]
    | none => rw [close_missing hf, ih _ hi]

/-- **The load falls by the weights of the clients that went, but for what was dropped.** -/
theorem close_load :
    (close sockets cs balancer balancerIndex).2.2.load balancerIndex + cs.weight =
      balancer.load balancerIndex + (close sockets cs balancer balancerIndex).2.1.weight +
        (drops sockets cs balancer balancerIndex).sum := by
  induction sockets generalizing cs balancer with
  | nil => rfl
  | cons socket sockets ih =>
    cases hf : cs.clientInfos.find socket with
    | some info =>
      have htotal := weight_erase hf
      have hrest := @ih { cs with clientInfos := cs.clientInfos.erase socket }
        (balancer.decPriority balancerIndex info.deadlineMaxCount) (by simpa using hi)
      rw [Priority.load_decPriority hi] at hrest
      rw [close_found hf, drops, hf]
      dsimp only at hrest ⊢
      by_cases hw : info.deadlineMaxCount ≤ balancer.load balancerIndex
      · rw [if_pos ⟨rfl, hw⟩] at hrest
        rw [if_pos hw]
        omega
      · rw [if_neg fun h' => hw h'.2] at hrest
        rw [if_neg hw, List.sum_cons]
        omega
    | none =>
      rw [close_missing hf, drops, hf]
      exact ih _ hi

theorem close_load_le : (close sockets cs balancer balancerIndex).2.2.load balancerIndex ≤
    balancer.load balancerIndex := by
  induction sockets generalizing cs balancer with
  | nil => exact le_rfl
  | cons socket sockets ih =>
    cases hf : cs.clientInfos.find socket with
    | some info =>
      rw [close_found hf]
      apply (ih _ (by simpa using hi)).trans
      rw [Priority.load_decPriority hi]
      split_ifs
      · exact Nat.sub_le _ _
      · exact le_rfl
    | none =>
      rw [close_missing hf]
      exact ih _ hi

theorem drops_eq_nil (h : cs.weight ≤ balancer.load balancerIndex) :
    drops sockets cs balancer balancerIndex = [] := by
  induction sockets generalizing cs balancer with
  | nil => rfl
  | cons socket sockets ih =>
    cases hf : cs.clientInfos.find socket with
    | some info =>
      have htotal := weight_erase hf
      have hw : info.deadlineMaxCount ≤ balancer.load balancerIndex := by omega
      rw [drops, hf]
      dsimp only
      rw [if_pos hw]
      apply ih _ (by simpa using hi)
      rw [Priority.load_decPriority hi, if_pos ⟨rfl, hw⟩]
      omega
    | none =>
      rw [drops, hf]
      exact ih _ hi h

theorem close_load_eq (h : balancer.load balancerIndex = cs.weight) :
    (close sockets cs balancer balancerIndex).2.2.load balancerIndex =
      (close sockets cs balancer balancerIndex).2.1.weight := by
  have hload := close_load sockets cs hi
  rw [drops_eq_nil sockets cs hi h.ge, List.sum_nil] at hload
  omega

end ClientInfos

end PollServer
