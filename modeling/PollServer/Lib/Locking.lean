import PollServer.Lib.Runs
import PollServer.Lib.Scoped

/-! Threads that call orderly code. They never all wait, every call can return, and no two of
them are about to touch a place that has protectors while one of them writes. -/

namespace PollServer.Lib

/-- A thread: the locks that it holds, the last one first, and the rest of its call. -/
structure Thread (L P : Type) where
  held : List (L × Mode)
  todo : List (LockOp L P)

section Threads

variable {T L P : Type} [DecidableEq T] [DecidableEq L]

/-- No one has the lock in a way that keeps it from being taken. Under `strict` a reader also
waits while a writer does. -/
def Grants (strict : Bool) (w : T → Thread L P) (l : L) (m : Mode) : Prop :=
  (∀ u m', (l, m') ∈ (w u).held → m = .shared ∧ m' = .shared) ∧
    (strict = true → m = .shared → ∀ u rest, (w u).todo ≠ .acquire l .exclusive :: rest)

/-- A thread calls, or it takes the next step of its call. -/
inductive LockStep (calls : T → Scoped L P → Prop) (strict : Bool) :
    (T → Thread L P) → List (T × LockOp L P) → (T → Thread L P) → Prop where
  | call {w : T → Thread L P} {t : T} {c : Scoped L P} (hc : calls t c) (ht : (w t).todo = []) :
      LockStep calls strict w [] (Function.update w t { w t with todo := c.ops })
  | acquire {w : T → Thread L P} {t : T} {l : L} {m : Mode} {rest : List (LockOp L P)}
      (ht : (w t).todo = .acquire l m :: rest) (hg : Grants strict w l m) :
      LockStep calls strict w [(t, .acquire l m)] (Function.update w t ⟨(l, m) :: (w t).held, rest⟩)
  | release {w : T → Thread L P} {t : T} {l : L} {rest : List (LockOp L P)}
      (ht : (w t).todo = .release l :: rest) :
      LockStep calls strict w [(t, .release l)]
        (Function.update w t ⟨(w t).held.eraseP (·.1 = l), rest⟩)
  | access {w : T → Thread L P} {t : T} {p : P} {write : Bool} {rest : List (LockOp L P)}
      (ht : (w t).todo = .access p write :: rest) :
      LockStep calls strict w [(t, .access p write)] (Function.update w t { w t with todo := rest })

end Threads

section Runs

variable {T L P : Type} {rank : L → ℕ} {protectors : P → Option (List (Protector T L))}
  {w w' : T → Thread L P}

/-- The calls that are under way are disciplined, and no lock is held against its mode. -/
structure LocksKept (rank : L → ℕ) (protectors : P → Option (List (Protector T L)))
    (w : T → Thread L P) : Prop where
  disciplined : ∀ t, Disciplined rank protectors t (w t).held (w t).todo
  excluded : ∀ t u, t ≠ u → ∀ l m m', (l, m) ∈ (w t).held → (l, m') ∈ (w u).held →
    m = .shared ∧ m' = .shared

/-- The rank of the lock that a thread is about to take, above 0. -/
def wanted (rank : L → ℕ) (thread : Thread L P) : ℕ :=
  match thread.todo with
  | .acquire l _ :: _ => rank l + 1
  | _ => 0

theorem wanted_acquire {thread : Thread L P} {l : L} {m : Mode} {rest : List (LockOp L P)}
    (h : thread.todo = .acquire l m :: rest) : wanted rank thread = rank l + 1 := by
  rw [wanted, h]

/-- What a thread holds while it waits is below what it waits for, and it does wait if no
thread goes on. -/
theorem LocksKept.holder (h : LocksKept rank protectors w) {strict : Bool}
    (hstuck : ∀ t op rest, (w t).todo = op :: rest → ∃ l m, op = .acquire l m ∧ ¬Grants strict w l m)
    {u : T} {l : L} {m : Mode} (hu : (l, m) ∈ (w u).held) : rank l + 1 < wanted rank (w u) := by
  have hd := h.disciplined u
  rcases htodo : (w u).todo with _ | ⟨op, rest⟩
  · rw [htodo] at hd
    rw [show (w u).held = [] from hd] at hu
    exact absurd hu List.not_mem_nil
  · obtain ⟨l', m', rfl, -⟩ := hstuck u op rest htodo
    rw [wanted_acquire htodo]
    rw [htodo] at hd
    exact Nat.succ_lt_succ (hd.held_lt hu)

/-- **There is no race** at a place that has protectors. -/
theorem LocksKept.no_race (h : LocksKept rank protectors w) {t u : T} (htu : t ≠ u) {p : P}
    {gs : List (Protector T L)} (hp : protectors p = some gs) {write write' : Bool}
    {rest rest' : List (LockOp L P)} (ht : (w t).todo = .access p write :: rest)
    (hu : (w u).todo = .access p write' :: rest') : write = false ∧ write' = false := by
  have hd := h.disciplined t
  have hd' := h.disciplined u
  rw [ht] at hd
  rw [hu] at hd'
  exact (hd.1 gs hp).excludes htu (h.excluded t u htu) (hd'.1 gs hp)

/-- No thread has called anything yet. -/
def quiet : T → Thread L P := fun _ => ⟨[], []⟩

theorem locksKept_quiet : LocksKept rank protectors (quiet : T → Thread L P) where
  disciplined _ := rfl
  excluded _ _ _ _ _ _ hm := absurd hm List.not_mem_nil

variable [DecidableEq T]

theorem LocksKept.update (h : LocksKept rank protectors w) {t : T} {thread : Thread L P}
    (hd : Disciplined rank protectors t thread.held thread.todo)
    (hx : ∀ u, u ≠ t → ∀ l m m', (l, m) ∈ thread.held → (l, m') ∈ (w u).held →
      m = .shared ∧ m' = .shared) :
    LocksKept rank protectors (Function.update w t thread) where
  disciplined u := by
    by_cases hu : u = t
    · subst hu
      rwa [Function.update_self]
    · rw [Function.update_of_ne hu]
      exact h.disciplined u
  excluded u v huv l m m' hm hm' := by
    by_cases hu : u = t
    · subst hu
      rw [Function.update_self] at hm
      rw [Function.update_of_ne (Ne.symm huv)] at hm'
      exact hx v (Ne.symm huv) l m m' hm hm'
    · rw [Function.update_of_ne hu] at hm
      by_cases hv : v = t
      · subst hv
        rw [Function.update_self] at hm'
        exact (hx u hu l m' m hm' hm).symm
      · rw [Function.update_of_ne hv] at hm'
        exact h.excluded u v huv l m m' hm hm'

variable [DecidableEq L] {calls : T → Scoped L P → Prop} {strict : Bool}
  {es history : List (T × LockOp L P)}

theorem LocksKept.step (h : LocksKept rank protectors w)
    (hc : ∀ t c, calls t c → c.Orderly rank protectors t []) (hs : LockStep calls strict w es w') :
    LocksKept rank protectors w' := by
  cases hs with
  | @call t c hcall ht =>
    have hd := h.disciplined t
    rw [ht] at hd
    refine h.update ?_ fun u hu l m m' hm hm' => h.excluded t u (Ne.symm hu) l m m' hm hm'
    have hcode : Disciplined rank protectors t [] (c.ops ++ []) := (hc t c hcall).disciplined rfl
    rw [List.append_nil] at hcode
    dsimp only
    rwa [show (w t).held = [] from hd]
  | @acquire t l m rest ht hg =>
    have hd := h.disciplined t
    rw [ht] at hd
    refine h.update hd.2 fun u hu l' m1 m2 hm hm' => ?_
    rcases List.mem_cons.mp hm with heq | hm
    · cases heq
      exact hg.1 u m2 hm'
    · exact h.excluded t u (Ne.symm hu) l' m1 m2 hm hm'
  | @release t l rest ht =>
    have hd := h.disciplined t
    rw [ht] at hd
    obtain ⟨m, held', hheld, hrest⟩ := hd
    have herase : (w t).held.eraseP (·.1 = l) = held' := by
      rw [hheld, List.eraseP_cons_of_pos (by simp)]
    refine h.update (by dsimp only; rwa [herase]) fun u hu l' m1 m2 hm hm' => ?_
    exact h.excluded t u (Ne.symm hu) l' m1 m2 (List.eraseP_subset hm) hm'
  | @access t p write rest ht =>
    have hd := h.disciplined t
    rw [ht] at hd
    exact h.update hd.2 fun u hu l m m' hm hm' => h.excluded t u (Ne.symm hu) l m m' hm hm'

theorem Run.locksKept (hc : ∀ t c, calls t c → c.Orderly rank protectors t [])
    (hr : Run (LockStep calls strict) quiet history w) : LocksKept rank protectors w :=
  hr.invariant (I := fun _ w => LocksKept rank protectors w) locksKept_quiet
    fun _ _ _ _ h hs => h.step hc hs

theorem LockStep.todo {u : T} {op : LockOp L P} {rest : List (LockOp L P)}
    (hs : LockStep calls strict w [(u, op)] w') (hu : (w u).todo = op :: rest) :
    (w' u).todo = rest ∧ ∀ v, v ≠ u → w' v = w v := by
  generalize hes : [(u, op)] = es at hs
  cases hs with
  | call => cases hes
  | acquire ht | release ht | access ht =>
    cases hes
    rw [hu] at ht
    cases ht
    exact ⟨by rw [Function.update_self], fun v hv => Function.update_of_ne hv _ _⟩

/-- **There is no deadlock**: while any call is under way, one of them can go on. -/
theorem LocksKept.progress [Finite T] (h : LocksKept rank protectors w)
    (calls : T → Scoped L P → Prop) (strict : Bool) {t : T}
    (ht : (w t).todo ≠ []) :
    ∃ u op rest w', (w u).todo = op :: rest ∧ LockStep calls strict w [(u, op)] w' := by
  by_contra hnone
  push Not at hnone
  have hstuck : ∀ t op rest, (w t).todo = op :: rest →
      ∃ l m, op = .acquire l m ∧ ¬Grants strict w l m := by
    intro u op rest hu
    cases op with
    | acquire l m => exact ⟨l, m, rfl, fun hg => hnone u _ rest _ hu (.acquire hu hg)⟩
    | release l => exact absurd (.release hu) (hnone u _ rest _ hu)
    | access p write => exact absurd (.access hu) (hnone u _ rest _ hu)
  have : Nonempty T := ⟨t⟩
  -- the thread that wants the lock of the highest rank
  obtain ⟨top, hmax⟩ := Finite.exists_max fun u => wanted rank (w u)
  have hfree : ∀ u l m, (l, m) ∈ (w u).held → rank l + 1 ≠ wanted rank (w top) := by
    intro u l m hu heq
    have hlt := h.holder hstuck hu
    have hle := hmax u
    omega
  obtain ⟨op, rest, htop⟩ : ∃ op rest, (w top).todo = op :: rest := by
    rcases htodo : (w top).todo with _ | ⟨op, rest⟩
    · obtain ⟨op, rest, hop⟩ := List.exists_cons_of_ne_nil ht
      obtain ⟨l, m, rfl, -⟩ := hstuck t op rest hop
      have hle := hmax t
      have hidle : wanted rank (w top) = 0 := by
        rw [wanted, htodo]
      rw [wanted_acquire hop, hidle] at hle
      omega
    · exact ⟨op, rest, rfl⟩
  obtain ⟨l, m, rfl, hgrants⟩ := hstuck top op rest htop
  have hwanted : wanted rank (w top) = rank l + 1 := wanted_acquire htop
  refine hgrants ⟨fun u m' hu => absurd hwanted.symm (hfree u l m' hu), fun hstrict hm u rest' hu => ?_⟩
  -- a writer that waits for the same lock waits for nobody
  obtain ⟨l', m', heq, hgrants'⟩ := hstuck u _ rest' hu
  cases heq
  exact hgrants' ⟨fun v m' hv => absurd hwanted.symm (hfree v l m' hv), fun _ hm' => nomatch hm'⟩

/-- **Every call returns**: without further calls, the threads can go on until none of them
is in a call, and then no lock is held. -/
theorem LocksKept.drained [Fintype T] (h : LocksKept rank protectors w) :
    ∃ more w', Run (LockStep (fun _ _ => False) strict) w more w' ∧ ∀ t, w' t = ⟨[], []⟩ := by
  generalize hn : ∑ t, (w t).todo.length = n
  induction n generalizing w with
  | zero =>
    refine ⟨[], w, .start, fun t => ?_⟩
    have htodo : (w t).todo = [] :=
      List.length_eq_zero_iff.mp ((Finset.sum_eq_zero_iff.mp hn) t (Finset.mem_univ t))
    have hheld := h.disciplined t
    rw [htodo] at hheld
    exact congrArg₂ Thread.mk hheld htodo
  | succ n ih =>
    obtain ⟨t, -, ht⟩ : ∃ t ∈ Finset.univ, (w t).todo.length ≠ 0 :=
      Finset.exists_ne_zero_of_sum_ne_zero (by rw [hn]; exact Nat.succ_ne_zero n)
    obtain ⟨u, op, rest, w1, hu, hs⟩ :=
      h.progress (fun _ _ => False) strict fun hnil => ht (by rw [hnil]; rfl)
    have hw1 := hs.todo hu
    have hsum : ∑ t, (w1 t).todo.length + 1 = ∑ t, (w t).todo.length := by
      rw [← Finset.sum_erase_add _ _ (Finset.mem_univ u), ← Finset.sum_erase_add _ _ (Finset.mem_univ u),
        hw1.1, hu, List.length_cons, add_assoc]
      congr 1
      exact Finset.sum_congr rfl fun v hv => by rw [hw1.2 v (Finset.ne_of_mem_erase hv)]
    obtain ⟨more, w', hr, hquiet⟩ := ih (h.step (fun _ _ hc => hc.elim) hs) (by omega)
    exact ⟨_, w', (Run.next .start hs).append hr, hquiet⟩

/-! ### What can be reached -/

/-- What a thread holds after these operations. -/
def advance : List (L × Mode) → List (LockOp L P) → List (L × Mode)
  | held, [] => held
  | held, .acquire l m :: ops => advance ((l, m) :: held) ops
  | held, .release l :: ops => advance (held.eraseP (·.1 = l)) ops
  | held, .access _ _ :: ops => advance held ops

/-- Code gives back what it takes. -/
theorem advance_ops (c : Scoped L P) (held : List (L × Mode)) (ops : List (LockOp L P)) :
    advance held (c.ops ++ ops) = advance held ops := by
  induction c generalizing held ops with
  | skip => rfl
  | touch p write next ih => exact ih held ops
  | hold l m body next ihb ihn =>
    have hops : (Scoped.hold l m body next).ops ++ ops =
        .acquire l m :: (body.ops ++ .release l :: (next.ops ++ ops)) := by
      simp [Scoped.ops]
    rw [hops, advance, ihb, advance, List.eraseP_cons_of_pos (by simp), ihn]

theorem LocksKept.alone (h : LocksKept rank protectors w) (strict : Bool)
    (hc : ∀ t c, calls t c → c.Orderly rank protectors t []) {t : T} {ops rest : List (LockOp L P)}
    (ht : (w t).todo = ops ++ rest)
    (hfree : ∀ u, u ≠ t → (∀ l m m', .acquire l m ∈ ops → (l, m') ∈ (w u).held →
      m = .shared ∧ m' = .shared) ∧ ∀ l rest, (w u).todo ≠ .acquire l .exclusive :: rest) :
    ∃ more, Run (LockStep calls strict) w more
      (Function.update w t ⟨advance (w t).held ops, rest⟩) := by
  induction ops generalizing w with
  | nil =>
    refine ⟨[], ?_⟩
    have hsame : Function.update w t ⟨(w t).held, rest⟩ = w := by
      rw [Function.update_eq_self_iff, show rest = (w t).todo from ht.symm]
    rw [advance, hsame]
    exact .start
  | cons op ops ih =>
    -- after a step of the thread, the rest of its way is free
    have hnext : ∀ thread : Thread L P, thread.todo = ops ++ rest →
        advance thread.held ops = advance (w t).held (op :: ops) →
        LockStep calls strict w [(t, op)] (Function.update w t thread) →
        ∃ more, Run (LockStep calls strict) w more
          (Function.update w t ⟨advance (w t).held (op :: ops), rest⟩) := by
      intro thread htodo hheld hs
      obtain ⟨more, hr⟩ := ih (h.step hc hs) (by rw [Function.update_self, htodo]) fun u hu => by
        rw [Function.update_of_ne hu]
        exact ⟨fun l m m' hop => (hfree u hu).1 l m m' (List.mem_cons_of_mem op hop), (hfree u hu).2⟩
      rw [Function.update_self, hheld, Function.update_idem] at hr
      exact ⟨_, (Run.next .start hs).append hr⟩
    cases op with
    | acquire l m =>
      refine hnext ⟨(l, m) :: (w t).held, ops ++ rest⟩ rfl rfl (.acquire ht ⟨fun u m' hu => ?_,
        fun _ _ u rest' hu => ?_⟩)
      · by_cases hut : u = t
        · subst hut
          have hd := h.disciplined u
          rw [ht] at hd
          exact absurd (hd.held_lt hu) (Nat.lt_irrefl _)
        · exact (hfree u hut).1 l m m' List.mem_cons_self hu
      · by_cases hut : u = t
        · subst hut
          rw [ht] at hu
          cases hu
          contradiction
        · exact (hfree u hut).2 l rest' hu
    | release l => exact hnext ⟨(w t).held.eraseP (·.1 = l), ops ++ rest⟩ rfl rfl (.release ht)
    | access p write => exact hnext { w t with todo := ops ++ rest } rfl rfl (.access ht)

/-- Two threads come to where each is about to touch a place, if what the first one holds there
does not keep the second one from coming. -/
theorem exists_race (strict : Bool) (hc : ∀ t c, calls t c → c.Orderly rank protectors t []) {t u : T}
    (htu : t ≠ u)
    {c c' : Scoped L P} (ht : calls t c) (hu : calls u c') {p : P} {write write' : Bool}
    {before before' rest rest' : List (LockOp L P)} (hops : c.ops = before ++ .access p write :: rest)
    (hops' : c'.ops = before' ++ .access p write' :: rest')
    (hfree : ∀ l m m', .acquire l m ∈ before' → (l, m') ∈ advance [] before →
      m = .shared ∧ m' = .shared) :
    ∃ history w, Run (LockStep calls strict) quiet history w ∧
      (w t).todo = .access p write :: rest ∧ (w u).todo = .access p write' :: rest' := by
  have hs1 : LockStep calls strict quiet [] (Function.update quiet t ⟨[], c.ops⟩) := .call ht rfl
  have hk1 := locksKept_quiet.step hc hs1
  obtain ⟨more, hr⟩ := hk1.alone strict hc (t := t)
    (by rw [Function.update_self]; exact hops) fun v hv => by
      rw [Function.update_of_ne hv]
      exact ⟨fun _ _ _ _ hm => absurd hm List.not_mem_nil, fun _ _ => nofun⟩
  rw [Function.update_self, Function.update_idem] at hr
  have hs2 : LockStep calls strict (Function.update quiet t ⟨advance [] before, .access p write :: rest⟩)
      [] _ := .call hu (by rw [Function.update_of_ne htu.symm]; rfl)
  have hr1 := (Run.next .start hs1).append hr
  have hk2 := (Run.locksKept hc hr1).step hc hs2
  obtain ⟨more', hr'⟩ := hk2.alone strict hc (t := u)
    (by rw [Function.update_self]; exact hops') fun v hv => by
      rw [Function.update_of_ne hv]
      by_cases hvt : v = t
      · subst hvt
        rw [Function.update_self]
        exact ⟨hfree, fun _ _ => nofun⟩
      · rw [Function.update_of_ne hvt]
        exact ⟨fun _ _ _ _ hm => absurd hm List.not_mem_nil, fun _ _ => nofun⟩
  refine ⟨_, _, (Run.next hr1 hs2).append hr', ?_, ?_⟩
  · rw [Function.update_of_ne htu, Function.update_of_ne htu, Function.update_self]
  · rw [Function.update_self]

/-- **Guards isolate**: as long as a thread has what lets it write a place, no other thread
touches the place; as long as it has what lets it read it, no other thread writes it. -/
theorem LocksKept.isolated (h : LocksKept rank protectors w)
    (hc : ∀ t c, calls t c → c.Orderly rank protectors t []) {t : T} {p : P} {write : Bool}
    {gs : List (Protector T L)} (hp : protectors p = some gs) (h0 : Covered t (w t).held write gs)
    (hr : Run (fun w es w' => LockStep calls strict w es w' ∧ Covered t (w' t).held write gs) w es w')
    {u : T} (htu : t ≠ u) {write' : Bool} (hu : (u, .access p write') ∈ es) :
    write = false ∧ write' = false := by
  have hall : LocksKept rank protectors w' ∧ Covered t (w' t).held write gs ∧
      ∀ write', (u, .access p write') ∈ es → write = false ∧ write' = false := by
    refine hr.invariant (I := fun es w => LocksKept rank protectors w ∧ Covered t (w t).held write gs ∧
      ∀ write', (u, .access p write') ∈ es → write = false ∧ write' = false)
      ⟨h, h0, fun _ hmem => absurd hmem List.not_mem_nil⟩ ?_
    rintro es es' w w' ⟨h, hcov, hes⟩ ⟨hs, hcov'⟩
    refine ⟨h.step hc hs, hcov', fun write' hmem => ?_⟩
    rcases List.mem_append.mp hmem with hmem | hmem
    · exact hes write' hmem
    · cases hs with
      | call => exact absurd hmem List.not_mem_nil
      | acquire | release => exact absurd (List.mem_singleton.mp hmem) nofun
      | access ht =>
        cases List.mem_singleton.mp hmem
        have hd := h.disciplined u
        rw [ht] at hd
        exact hcov.excludes htu (h.excluded t u htu) (hd.1 gs hp)
  exact hall.2.2 write' hu

end Runs

end PollServer.Lib
