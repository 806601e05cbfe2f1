import Mathlib.Tactic

/-! A finite map whose values know their own keys. The order of the entries means
nothing: it is what an iteration over the map happens to follow. -/

namespace PollServer.Lib

variable {K V : Type}

structure Keyed (key : V → K) where
  entries : List V
  nodup : (entries.map key).Nodup

namespace Keyed

variable {key : V → K} (m : Keyed key)

def empty : Keyed key := ⟨[], List.nodup_nil⟩

def keys : List K := m.entries.map key

def total (w : V → ℕ) : ℕ := (m.entries.map w).sum

instance : Membership K (Keyed key) := ⟨fun m k => k ∈ m.keys⟩

theorem mem_def {k : K} : k ∈ m ↔ k ∈ m.keys := Iff.rfl

theorem mem_iff {k : K} : k ∈ m ↔ ∃ v ∈ m.entries, key v = k := List.mem_map

@[simp] theorem not_mem_empty (k : K) : k ∉ (empty : Keyed key) := List.not_mem_nil

@[simp] theorem total_empty (w : V → ℕ) : (empty : Keyed key).total w = 0 := rfl

theorem mem_of_entry {v : V} (h : v ∈ m.entries) : key v ∈ m := m.mem_iff.mpr ⟨v, h, rfl⟩

theorem eq_of_key {v v' : V} (hv : v ∈ m.entries) (hv' : v' ∈ m.entries) (h : key v = key v') :
    v = v' := List.inj_on_of_nodup_map m.nodup hv hv' h

/-- The entries of one map are those of the other, each changed by `R`. -/
def Changed (R : V → V → Prop) (m m' : Keyed key) : Prop := List.Forall₂ R m.entries m'.entries

namespace Changed

variable {R S : V → V → Prop} {m m' m'' : Keyed key}

theorem refl (h : ∀ v, R v v) (m : Keyed key) : Changed R m m := List.forall₂_same.mpr fun v _ => h v

theorem keys (h : Changed R m m') (hR : ∀ v v', R v v' → key v' = key v) : m'.keys = m.keys := by
  unfold Changed at h
  unfold Keyed.keys
  generalize m.entries = l, m'.entries = l' at h ⊢
  induction h with
  | nil => rfl
  | cons hvv' _ ih => rw [List.map_cons, List.map_cons, ih, hR _ _ hvv']

theorem total (h : Changed R m m') (w : V → ℕ) (hR : ∀ v v', R v v' → w v' = w v) :
    m'.total w = m.total w := by
  unfold Changed at h
  unfold Keyed.total
  generalize m.entries = l, m'.entries = l' at h ⊢
  induction h with
  | nil => rfl
  | cons hvv' _ ih => rw [List.map_cons, List.map_cons, List.sum_cons, List.sum_cons, ih, hR _ _ hvv']

/-- Every entry comes from one. -/
theorem back (h : Changed R m m') {v' : V} (hv' : v' ∈ m'.entries) :
    ∃ v ∈ m.entries, R v v' := by
  unfold Changed at h
  generalize m.entries = l, m'.entries = l' at h hv' ⊢
  induction h with
  | nil => simp at hv'
  | cons hvv' _ ih =>
    rcases List.mem_cons.mp hv' with rfl | hv'
    · exact ⟨_, List.mem_cons_self, hvv'⟩
    · obtain ⟨v, hv, hR⟩ := ih hv'
      exact ⟨v, List.mem_cons_of_mem _ hv, hR⟩

theorem comp {T : V → V → Prop} (h : Changed R m m') (h' : Changed S m' m'')
    (hT : ∀ v v' v'', R v v' → S v' v'' → T v v'') : Changed T m m'' := by
  unfold Changed at *
  generalize m.entries = l, m'.entries = l', m''.entries = l'' at h h' ⊢
  induction h generalizing l'' with
  | nil =>
    cases h'
    exact List.Forall₂.nil
  | cons hvv' _ ih =>
    cases h' with
    | cons hv'v'' h' => exact List.Forall₂.cons (hT _ _ _ hvv' hv'v'') (ih _ h')

end Changed

variable [DecidableEq K]

instance (k : K) : Decidable (k ∈ m) := inferInstanceAs (Decidable (k ∈ m.keys))

def find (k : K) : Option V := m.entries.find? fun v => key v = k

/-- Like `insert` of a C++ map, it leaves a key that is there alone. -/
def insert (v : V) : Keyed key :=
  if h : key v ∈ m then m else ⟨v :: m.entries, List.nodup_cons.mpr ⟨h, m.nodup⟩⟩

def erase (k : K) : Keyed key :=
  ⟨m.entries.filter fun v => key v ≠ k, m.nodup.sublist (List.filter_sublist.map key)⟩

theorem map_put (v : V) (l : List V) :
    (l.map fun v' => if key v' = key v then v else v').map key = l.map key := by
  rw [List.map_map]
  apply List.map_congr_left
  intro v' _
  by_cases h : key v' = key v <;> simp [h]

/-- Writes `v` over the entry of its key, if there is one. -/
def put (v : V) : Keyed key :=
  ⟨m.entries.map fun v' => if key v' = key v then v else v', by rw [map_put]; exact m.nodup⟩

@[simp] theorem find_empty (k : K) : (empty : Keyed key).find k = none := rfl

theorem find_eq_some {k : K} {v : V} : m.find k = some v ↔ v ∈ m.entries ∧ key v = k := by
  constructor
  · intro h
    exact ⟨List.mem_of_find?_eq_some h, by simpa using List.find?_some h⟩
  · rintro ⟨hv, rfl⟩
    cases h : m.find (key v) with
    | none => simpa using List.find?_eq_none.mp h v hv
    | some v' =>
      have hkey : key v' = key v := by simpa using List.find?_some h
      rw [m.eq_of_key (List.mem_of_find?_eq_some h) hv hkey]

theorem find_eq_none {k : K} : m.find k = none ↔ k ∉ m := by
  rw [find, List.find?_eq_none, mem_iff]
  simp

theorem mem_iff_find {k : K} : k ∈ m ↔ ∃ v, m.find k = some v := by
  rw [mem_iff]
  simp only [find_eq_some]

theorem mem_of_find {k : K} {v : V} (h : m.find k = some v) : k ∈ m := m.mem_iff_find.mpr ⟨v, h⟩

section Insert

variable {v : V}

theorem insert_of_mem (h : key v ∈ m) : m.insert v = m := dif_pos h

theorem entries_insert (h : key v ∉ m) : (m.insert v).entries = v :: m.entries := by
  rw [insert, dif_neg h]

theorem mem_insert {k : K} : k ∈ m.insert v ↔ k = key v ∨ k ∈ m := by
  by_cases h : key v ∈ m
  · rw [m.insert_of_mem h]
    refine ⟨Or.inr, ?_⟩
    rintro (rfl | hk)
    · exact h
    · exact hk
  · rw [mem_def, keys, m.entries_insert h, List.map_cons, List.mem_cons]
    rfl

theorem mem_entries_insert {v' : V} (h : v' ∈ (m.insert v).entries) : v' = v ∨ v' ∈ m.entries := by
  by_cases hv : key v ∈ m
  · rw [m.insert_of_mem hv] at h
    exact Or.inr h
  · rw [m.entries_insert hv] at h
    exact List.mem_cons.mp h

theorem total_insert (h : key v ∉ m) (w : V → ℕ) : (m.insert v).total w = w v + m.total w := by
  rw [total, m.entries_insert h, List.map_cons, List.sum_cons, total]

end Insert

section Erase

variable {k : K}

theorem mem_erase {k' : K} : k' ∈ m.erase k ↔ k' ∈ m ∧ k' ≠ k := by
  simp only [mem_iff, erase, List.mem_filter, decide_eq_true_eq]
  constructor
  · rintro ⟨v, ⟨hv, hk⟩, rfl⟩
    exact ⟨⟨v, hv, rfl⟩, hk⟩
  · rintro ⟨⟨v, hv, rfl⟩, hk⟩
    exact ⟨v, ⟨hv, hk⟩, rfl⟩

theorem mem_entries_erase {v : V} : v ∈ (m.erase k).entries ↔ v ∈ m.entries ∧ key v ≠ k := by
  simp only [erase, List.mem_filter, decide_eq_true_eq]

theorem erase_of_not_mem (h : k ∉ m) : m.erase k = m := by
  have hfilter : m.entries.filter (fun v => key v ≠ k) = m.entries := by
    apply List.filter_eq_self.mpr
    intro v hv
    simp only [decide_eq_true_eq]
    rintro rfl
    exact h (m.mem_of_entry hv)
  cases m
  simp only [erase, mk.injEq]
  exact hfilter

theorem sum_filter_key (w : V → ℕ) {v : V} {l : List V} (hl : (l.map key).Nodup) (hv : v ∈ l) :
    ((l.filter fun v' => key v' ≠ key v).map w).sum + w v = (l.map w).sum := by
  induction l with
  | nil => simp at hv
  | cons x l ih =>
    rw [List.map_cons, List.nodup_cons] at hl
    by_cases hx : key x = key v
    · have hxv : x = v := by
        rcases List.mem_cons.mp hv with rfl | hv
        · rfl
        · exact absurd (hx ▸ List.mem_map_of_mem hv) hl.1
      have hrest : l.filter (fun v' => key v' ≠ key v) = l := by
        apply List.filter_eq_self.mpr
        intro y hy
        simp only [decide_eq_true_eq]
        exact fun hk => hl.1 (hx.trans hk.symm ▸ List.mem_map_of_mem hy)
      rw [List.filter_cons, if_neg (by simp [hx]), hrest, hxv, List.map_cons, List.sum_cons,
        Nat.add_comm]
    · have hv' : v ∈ l := by
        rcases List.mem_cons.mp hv with rfl | hv
        · exact absurd rfl hx
        · exact hv
      rw [List.filter_cons, if_pos (by simpa using hx), List.map_cons, List.map_cons, List.sum_cons,
        List.sum_cons, Nat.add_assoc, ih hl.2 hv']

theorem total_erase (w : V → ℕ) {v : V} (h : m.find k = some v) :
    (m.erase k).total w + w v = m.total w := by
  obtain ⟨hv, rfl⟩ := m.find_eq_some.mp h
  exact sum_filter_key w m.nodup hv

/-- The map without the keys `ks`. -/
def eraseAll (ks : List K) : Keyed key := ks.foldl (fun m k => m.erase k) m

theorem mem_entries_eraseAll {ks : List K} {v : V} :
    v ∈ (m.eraseAll ks).entries ↔ v ∈ m.entries ∧ key v ∉ ks := by
  induction ks generalizing m with
  | nil => simp [eraseAll]
  | cons k ks ih =>
    rw [eraseAll, List.foldl_cons, ← eraseAll, ih, mem_entries_erase, List.mem_cons, not_or, and_assoc]

theorem mem_eraseAll {ks : List K} : k ∈ m.eraseAll ks ↔ k ∈ m ∧ k ∉ ks := by
  simp only [mem_iff, mem_entries_eraseAll]
  constructor
  · rintro ⟨v, ⟨hv, hk⟩, rfl⟩
    exact ⟨⟨v, hv, rfl⟩, hk⟩
  · rintro ⟨⟨v, hv, rfl⟩, hk⟩
    exact ⟨v, ⟨hv, hk⟩, rfl⟩

theorem length_eraseAll {ks : List K} (hk : ks.Nodup) :
    (m.eraseAll ks).entries.length + (ks.filter fun k => k ∈ m).length = m.entries.length := by
  induction ks generalizing m with
  | nil => rfl
  | cons k ks ih =>
    rw [List.nodup_cons] at hk
    have hfilter : ks.filter (fun k' => k' ∈ m.erase k) = ks.filter fun k' => k' ∈ m := by
      apply List.filter_congr
      intro k' hk'
      rw [decide_eq_decide, mem_erase]
      exact and_iff_left (ne_of_mem_of_not_mem hk' hk.1)
    have hrest := ih (m.erase k) hk.2
    rw [hfilter] at hrest
    rw [eraseAll, List.foldl_cons, ← eraseAll]
    by_cases hm : k ∈ m
    · obtain ⟨v, hv⟩ := m.mem_iff_find.mp hm
      have htotal := m.total_erase (fun _ => 1) hv
      simp only [total, List.map_const', List.sum_replicate, smul_eq_mul, mul_one] at htotal
      rw [List.filter_cons_of_pos (by simpa using hm), List.length_cons]
      omega
    · rw [List.filter_cons_of_neg (by simpa using hm), hrest, m.erase_of_not_mem hm]

end Erase

theorem mem_entries_put {v v' : V} :
    v' ∈ (m.put v).entries ↔ (v' ∈ m.entries ∧ key v' ≠ key v) ∨ (v' = v ∧ key v ∈ m) := by
  simp only [put, List.mem_map, mem_iff]
  constructor
  · rintro ⟨x, hx, rfl⟩
    by_cases h : key x = key v
    · rw [if_pos h]
      exact Or.inr ⟨rfl, x, hx, h⟩
    · rw [if_neg h]
      exact Or.inl ⟨hx, h⟩
  · rintro (⟨hv', h⟩ | ⟨rfl, x, hx, h⟩)
    · exact ⟨v', hv', if_neg h⟩
    · exact ⟨x, hx, if_pos h⟩

theorem find_put_of_ne {v : V} {k : K} (h : k ≠ key v) : (m.put v).find k = m.find k := by
  apply Option.ext
  intro v'
  rw [find_eq_some, find_eq_some, mem_entries_put]
  constructor
  · rintro ⟨⟨hv', -⟩ | ⟨rfl, -⟩, hk⟩
    · exact ⟨hv', hk⟩
    · exact absurd hk.symm h
  · rintro ⟨hv', rfl⟩
    exact ⟨Or.inl ⟨hv', h⟩, rfl⟩

theorem find_put {v : V} (h : key v ∈ m) : (m.put v).find (key v) = some v := by
  rw [find_eq_some, mem_entries_put]
  exact ⟨Or.inr ⟨rfl, h⟩, rfl⟩

theorem changed_put {R : V → V → Prop} {v : V} (hput : ∀ v', v' ∈ m.entries → key v' = key v → R v' v)
    (hrest : ∀ v', v' ∈ m.entries → key v' ≠ key v → R v' v') : Changed R m (m.put v) := by
  unfold Changed put
  rw [List.forall₂_map_right_iff]
  apply List.forall₂_same.mpr
  intro v' hv'
  by_cases h : key v' = key v
  · rw [if_pos h]
    exact hput v' hv' h
  · rw [if_neg h]
    exact hrest v' hv' h

/-- Maps that share no key have together no more entries than there are keys. -/
theorem sum_length_le {ι : Type} [Fintype ι] {m : ι → Keyed key} {keys : Finset K}
    (hm : ∀ i j k, k ∈ m i → k ∈ m j → i = j) (hk : ∀ i, ∀ k ∈ m i, k ∈ keys) :
    ∑ i, (m i).entries.length ≤ keys.card := by
  have hcard : ∀ i, (m i).entries.length = (m i).keys.toFinset.card := fun i =>
    ((List.toFinset_card_of_nodup (m i).nodup).trans (List.length_map key)).symm
  have hdisjoint : ∀ i ∈ Finset.univ, ∀ j ∈ Finset.univ, i ≠ j →
      Disjoint (m i).keys.toFinset (m j).keys.toFinset := by
    intro i _ j _ hij
    rw [Finset.disjoint_left]
    exact fun k hi hj => hij (hm i j k (List.mem_toFinset.mp hi) (List.mem_toFinset.mp hj))
  simp only [hcard]
  rw [← Finset.card_biUnion hdisjoint]
  apply Finset.card_le_card
  intro k hmem
  obtain ⟨i, -, hi⟩ := Finset.mem_biUnion.mp hmem
  exact hk i k (List.mem_toFinset.mp hi)

end Keyed

end PollServer.Lib
