import Mathlib.Tactic

/-! Code whose locks are held in nested scopes: what it is for such code to take its locks in an
order, and to touch each place under what protects it; and the rules by which code is shown to. -/

namespace PollServer.Lib

inductive Mode where
  | shared
  | exclusive
  deriving DecidableEq

inductive LockOp (L P : Type) where
  | acquire (l : L) (m : Mode)
  | release (l : L)
  | access (p : P) (write : Bool)

/-- Code that touches places, under locks that it holds for the scopes of its guards. -/
inductive Scoped (L P : Type) where
  | skip
  | touch (p : P) (write : Bool) (next : Scoped L P)
  | hold (l : L) (m : Mode) (body next : Scoped L P)

namespace Scoped

variable {L P : Type}

def ops : Scoped L P → List (LockOp L P)
  | skip => []
  | touch p write next => .access p write :: next.ops
  | hold l m body next => .acquire l m :: (body.ops ++ .release l :: next.ops)

/-- One after the other. -/
def seq : Scoped L P → Scoped L P → Scoped L P
  | skip, c => c
  | touch p write next, c => touch p write (next.seq c)
  | hold l m body next, c => hold l m body (next.seq c)

instance : Append (Scoped L P) := ⟨seq⟩

/-- The statements of a block, or the turns of a loop. -/
def join : List (Scoped L P) → Scoped L P
  | [] => skip
  | c :: cs => c ++ join cs

def read (p : P) : Scoped L P := touch p false skip

def write (p : P) : Scoped L P := touch p true skip

/-- A block, in the scope of a guard. -/
def under (l : L) (m : Mode) (block : List (Scoped L P)) : Scoped L P := hold l m (join block) skip

theorem ops_append (c c' : Scoped L P) : (c ++ c').ops = c.ops ++ c'.ops := by
  induction c with
  | skip => rfl
  | touch p write next ih => exact congrArg (LockOp.access p write :: ·) ih
  | hold l m body next _ ih =>
    have hnext : (hold l m body next ++ c').ops =
        .acquire l m :: (body.ops ++ .release l :: (next ++ c').ops) := rfl
    rw [hnext, ih, ops, List.cons_append, List.append_assoc, List.cons_append]

theorem ops_join_append (cs cs' : List (Scoped L P)) :
    (join (cs ++ cs')).ops = (join cs).ops ++ (join cs').ops := by
  induction cs with
  | nil => rfl
  | cons c cs ih => rw [List.cons_append, join, join, ops_append, ops_append, ih, List.append_assoc]

end Scoped

/-- A place is protected by a lock, or by being one thread's own. -/
inductive Protector (T L : Type) where
  | lock (l : L)
  | thread (t : T)

variable {T L P : Type} (rank : L → ℕ) (protectors : P → Option (List (Protector T L))) (t : T)

/-- The locks that are held have ranks below `n`. -/
def HeldBelow (n : ℕ) (held : List (L × Mode)) : Prop := ∀ h ∈ held, rank h.1 < n

/-- A thread that holds these locks has the protector in this mode. -/
def Has (held : List (L × Mode)) (m : Mode) : Protector T L → Prop
  | .lock l => (l, Mode.exclusive) ∈ held ∨ (m = .shared ∧ (l, Mode.shared) ∈ held)
  | .thread u => u = t

/-- Of the protectors of a place, the thread has one for itself and shares those before it; to
read, it is enough to share them all. -/
def Covered (held : List (L × Mode)) (write : Bool) : List (Protector T L) → Prop
  | [] => write = false
  | g :: gs => Has t held .exclusive g ∨ (Has t held .shared g ∧ Covered held write gs)

/-- The access, if the place has protectors, is covered by them. -/
def Allows (held : List (L × Mode)) (write : Bool) (p : P) : Prop :=
  ∀ gs ∈ protectors p, Covered t held write gs

/-- The locks come in the order of their ranks, and the accesses are covered. -/
def Scoped.Orderly : List (L × Mode) → Scoped L P → Prop
  | _, skip => True
  | held, touch p write next => Allows protectors t held write p ∧ Orderly held next
  | held, hold l m body next =>
    HeldBelow rank (rank l) held ∧ Orderly ((l, m) :: held) body ∧ Orderly held next

/-- The code is orderly wherever `H` holds of what is held. -/
def Scoped.Fits (H : List (L × Mode) → Prop) (c : Scoped L P) : Prop :=
  ∀ held, H held → c.Orderly rank protectors t held

/-- The same of a call that is under way, which gives back what its thread holds. -/
def Disciplined : List (L × Mode) → List (LockOp L P) → Prop
  | held, [] => held = []
  | held, .acquire l m :: rest => HeldBelow rank (rank l) held ∧ Disciplined ((l, m) :: held) rest
  | held, .release l :: rest => ∃ m held', held = (l, m) :: held' ∧ Disciplined held' rest
  | held, .access p write :: rest => Allows protectors t held write p ∧ Disciplined held rest

variable {rank protectors t} {held : List (L × Mode)} {c c' : Scoped L P} {rest : List (LockOp L P)}

/-- Orderly code can be called, with what comes behind it. -/
theorem Scoped.Orderly.disciplined (h : c.Orderly rank protectors t held)
    (hr : Disciplined rank protectors t held rest) :
    Disciplined rank protectors t held (c.ops ++ rest) := by
  induction c generalizing held rest with
  | skip => exact hr
  | touch p write next ih => exact ⟨h.1, ih h.2 hr⟩
  | hold l m body next ihb ihn =>
    obtain ⟨hrank, hbody, hnext⟩ := h
    have hbehind : Disciplined rank protectors t ((l, m) :: held) (.release l :: (next.ops ++ rest)) :=
      ⟨m, held, rfl, ihn hnext hr⟩
    have hops : (hold l m body next).ops ++ rest =
        .acquire l m :: (body.ops ++ .release l :: (next.ops ++ rest)) := by
      simp [ops]
    rw [hops]
    exact ⟨hrank, ihb hbody hbehind⟩

theorem heldBelow_nil {n : ℕ} : HeldBelow rank n ([] : List (L × Mode)) := nofun

theorem heldBelow_cons {n : ℕ} {l : L} {m : Mode} :
    HeldBelow rank n ((l, m) :: held) ↔ rank l < n ∧ HeldBelow rank n held :=
  List.forall_mem_cons

theorem HeldBelow.mono {m n : ℕ} (h : HeldBelow rank m held) (hmn : m ≤ n) : HeldBelow rank n held :=
  fun l hl => (h l hl).trans_le hmn

theorem Scoped.orderly_append :
    (c ++ c').Orderly rank protectors t held ↔
      c.Orderly rank protectors t held ∧ c'.Orderly rank protectors t held := by
  induction c with
  | skip => exact (and_iff_right trivial).symm
  | touch p write next ih =>
    change Allows protectors t held write p ∧ _ ↔ (_ ∧ _) ∧ _
    rw [and_assoc]
    exact and_congr_right fun _ => ih
  | hold l m body next _ ih =>
    change _ ∧ _ ∧ _ ↔ (_ ∧ _ ∧ _) ∧ _
    rw [and_assoc, and_assoc]
    exact and_congr_right fun _ => and_congr_right fun _ => ih

theorem Scoped.orderly_join {cs : List (Scoped L P)} :
    (join cs).Orderly rank protectors t held ↔ ∀ c ∈ cs, c.Orderly rank protectors t held := by
  induction cs with
  | nil => exact iff_of_true trivial nofun
  | cons c cs ih =>
    rw [join, orderly_append, List.forall_mem_cons, ih]

/-! ### The rules of `Fits` -/

section Fits

variable {H H' : List (L × Mode) → Prop}

/-- In the scope of a guard, with `H` around it. -/
def Within (l : L) (m : Mode) (H : List (L × Mode) → Prop) (held : List (L × Mode)) : Prop :=
  ∃ held', held = (l, m) :: held' ∧ H held'

theorem Scoped.fits_skip : (skip : Scoped L P).Fits rank protectors t H := fun _ _ => trivial

theorem Scoped.fits_touch {p : P} {write : Bool} (h : ∀ held, H held → Allows protectors t held write p) :
    (touch p write skip).Fits rank protectors t H :=
  fun held hH => ⟨h held hH, trivial⟩

theorem Scoped.fits_join {cs : List (Scoped L P)} (h : cs.Forall (Fits rank protectors t H)) :
    (join cs).Fits rank protectors t H :=
  fun held hH => orderly_join.mpr fun c hc => List.forall_iff_forall_mem.mp h c hc held hH

theorem Scoped.fits_loop {α : Type} {l : List α} {f : α → Scoped L P}
    (h : ∀ a, (f a).Fits rank protectors t H) : (join (l.map f)).Fits rank protectors t H :=
  fits_join (List.forall_iff_forall_mem.mpr (List.forall_mem_map.mpr fun a _ => h a))

theorem Scoped.fits_ite {b : Prop} [Decidable b] (h : c.Fits rank protectors t H)
    (h' : c'.Fits rank protectors t H) : (if b then c else c').Fits rank protectors t H := by
  split
  · exact h
  · exact h'

theorem Scoped.fits_under {l : L} {m : Mode} {block : List (Scoped L P)}
    (hl : ∀ held, H held → HeldBelow rank (rank l) held)
    (hb : (join block).Fits rank protectors t (Within l m H)) :
    (under l m block).Fits rank protectors t H :=
  fun held h => ⟨hl held h, hb _ ⟨held, rfl, h⟩, trivial⟩

theorem Scoped.Fits.weaken (h : c.Fits rank protectors t H) (hH : ∀ held, H' held → H held) :
    c.Fits rank protectors t H' :=
  fun held h' => h held (hH held h')

end Fits

theorem Disciplined.held_lt {l : L} {m : Mode}
    (h : Disciplined rank protectors t held (.acquire l m :: rest)) {l' : L} {m' : Mode}
    (hl : (l', m') ∈ held) : rank l' < rank l :=
  h.1 (l', m') hl

theorem Covered.excludes {u : T} (htu : t ≠ u) {held' : List (L × Mode)}
    (hx : ∀ l m m', (l, m) ∈ held → (l, m') ∈ held' → m = .shared ∧ m' = .shared) {write write' : Bool}
    {gs : List (Protector T L)} (h : Covered t held write gs) (h' : Covered u held' write' gs) :
    write = false ∧ write' = false := by
  have hown : ∀ g, Has t held .exclusive g → Has u held' .shared g → False := by
    intro g hg hg'
    cases g with
    | lock l =>
      have hl : (l, Mode.exclusive) ∈ held := hg.resolve_right fun hs => nomatch hs.1
      rcases hg' with hl' | ⟨-, hl'⟩
      · exact nomatch (hx l _ _ hl hl').1
      · exact nomatch (hx l _ _ hl hl').1
    | thread v => exact htu (hg.symm.trans hg')
  have hown' : ∀ g, Has t held .shared g → Has u held' .exclusive g → False := by
    intro g hg hg'
    cases g with
    | lock l =>
      have hl' : (l, Mode.exclusive) ∈ held' := hg'.resolve_right fun hs => nomatch hs.1
      rcases hg with hl | ⟨-, hl⟩
      · exact nomatch (hx l _ _ hl hl').2
      · exact nomatch (hx l _ _ hl hl').2
    | thread v => exact htu (hg.symm.trans hg')
  have hweak : ∀ (v : T) (hs : List (L × Mode)) g, Has v hs .exclusive g → Has v hs .shared g := by
    intro v hs g hg
    cases g with
    | lock l => exact Or.inl (hg.resolve_right fun hs => nomatch hs.1)
    | thread v => exact hg
  induction gs with
  | nil => exact ⟨h, h'⟩
  | cons g gs ih =>
    rcases h with h | ⟨hs, h⟩ <;> rcases h' with h' | ⟨hs', h'⟩
    · exact absurd (hweak u held' g h') (hown g h)
    · exact absurd hs' (hown g h)
    · exact absurd h' (hown' g hs)
    · exact ih h h'

end PollServer.Lib
