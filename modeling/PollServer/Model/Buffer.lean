import PollServer.Lib.Window
import PollServer.Lib.StopM

/-! `memory::Buffer<char>` and what all of the model shares: the build, the ways a
call can end without returning, and `size_t` arithmetic. -/

namespace PollServer

open Lib

abbrev Byte := BitVec 8

inductive ByteOrder where
  | little
  | big
  deriving DecidableEq

/-- What the build decides: whether `NDEBUG` leaves the asserts in, and the byte
order of the host it is built for. -/
structure Build where
  asserts : Bool
  order : ByteOrder
  deriving DecidableEq

/-- How a call ends when it does not return: a failed assert, an exception, an access
outside an array, or a loop that is still running when its fuel is gone. -/
inductive Stop where
  | assertion
  | invalidArgument
  | runtimeError
  | outOfBounds
  | diverges
  deriving DecidableEq

def assert (b : Build) (p : Prop) [Decidable p] : Except Stop Unit :=
  if b.asserts ∧ ¬p then .error .assertion else .ok ()

theorem assert_of {b : Build} {p : Prop} [Decidable p] (h : p) : assert b p = .ok () := by
  simp [assert, h]

theorem assert_off {b : Build} (hb : b.asserts = false) (p : Prop) [Decidable p] :
    assert b p = .ok () := by
  simp [assert, hb]

theorem assert_ok {b : Build} {p : Prop} [Decidable p] {u : Unit} (h : assert b p = .ok u)
    (hb : b.asserts = true) : p := by
  by_contra hp
  simp [assert, hb, hp] at h

/-- `a + b` and `a - b` in a 64-bit `size_t`. -/
def addSize (a b : ℕ) : ℕ := (a + b) % 2 ^ 64
def subSize (a b : ℕ) : ℕ := (a + 2 ^ 64 - b) % 2 ^ 64

theorem addSize_of_lt {a b : ℕ} (h : a + b < 2 ^ 64) : addSize a b = a + b := Nat.mod_eq_of_lt h

theorem subSize_of_le {a b : ℕ} (h : b ≤ a) (ha : a < 2 ^ 64) : subSize a b = a - b := by
  unfold subSize
  omega

/-- The array is as long as it was allocated, and no array reaches `PTRDIFF_MAX`. -/
structure Buffer (sizeV : ℕ) where
  arr : List Byte
  offset : ℕ
  length_arr : arr.length = sizeV
  size_pos : 0 < sizeV
  size_lt : sizeV < 2 ^ 63

namespace Buffer

variable {n : ℕ} (b : Build) (buf : Buffer n)

def withOffset (newOffset : ℕ) : Buffer n := { buf with offset := newOffset }

def setOffset (newOffset : ℕ) : Except Stop (Buffer n) := do
  assert b (newOffset ≤ n)
  return buf.withOffset newOffset

def offsetBy (k : ℕ) : Except Stop (Buffer n) := buf.setOffset b (addSize buf.offset k)

def offsetBack (k : ℕ) : Except Stop (Buffer n) := do
  assert b (k ≤ buf.offset)
  buf.setOffset b (subSize buf.offset k)

def size : ℕ := subSize n buf.offset

def sizeIgnoreOffset (_ : Buffer n) : ℕ := n

/-- The `k` bytes from `begin() + i`. -/
def read (i k : ℕ) : Except Stop (List Byte) :=
  if buf.offset + i + k ≤ n then .ok (window buf.arr (buf.offset + i) k) else .error .outOfBounds

def stored (i : ℕ) (bs : List Byte) : Buffer n :=
  if h : buf.offset + i + bs.length ≤ n then
    { buf with
      arr := overwrite buf.arr (buf.offset + i) bs
      length_arr := by rw [length_overwrite (by rw [buf.length_arr]; exact h), buf.length_arr] }
  else buf

/-- The kernel copying `bs` to `data() + i`. -/
def store (i : ℕ) (bs : List Byte) : Except Stop (Buffer n) :=
  if buf.offset + i + bs.length ≤ n then .ok (buf.stored i bs) else .error .outOfBounds

/-- The copy of `[arr + offset, arr + sizeV)` to `arr`. -/
def moved : Buffer n :=
  if h : buf.offset ≤ n then
    { buf with
      arr := buf.arr.drop buf.offset ++ buf.arr.drop (n - buf.offset)
      length_arr := by simp only [List.length_append, List.length_drop, buf.length_arr]; omega }
  else buf

def moveToStart : Except Stop (Buffer n) :=
  if buf.offset ≤ n then buf.moved.setOffset b 0 else .error .outOfBounds

/-- A buffer of `n` bytes, each of them `x`. -/
def filled (x : Byte) (hpos : 0 < n) (hlt : n < 2 ^ 63) : Buffer n :=
  ⟨List.replicate n x, 0, List.length_replicate, hpos, hlt⟩

@[simp] theorem withOffset_arr (k : ℕ) : (buf.withOffset k).arr = buf.arr := rfl
@[simp] theorem withOffset_offset (k : ℕ) : (buf.withOffset k).offset = k := rfl

theorem setOffset_of_le {k : ℕ} (h : k ≤ n) : buf.setOffset b k = .ok (buf.withOffset k) := by
  simp only [setOffset, assert_of h]
  rfl

theorem offsetBy_of_le {k : ℕ} (h : buf.offset + k ≤ n) :
    buf.offsetBy b k = .ok (buf.withOffset (buf.offset + k)) := by
  have hn := buf.size_lt
  rw [offsetBy, addSize_of_lt (by omega), setOffset_of_le b buf h]

theorem offsetBack_of_le {k : ℕ} (h : k ≤ buf.offset) (ho : buf.offset ≤ n) :
    buf.offsetBack b k = .ok (buf.withOffset (buf.offset - k)) := by
  have hn := buf.size_lt
  rw [offsetBack, assert_of h, subSize_of_le h (by omega)]
  exact setOffset_of_le b buf (by omega)

theorem moveToStart_of_le (h : buf.offset ≤ n) :
    buf.moveToStart b = .ok (buf.moved.withOffset 0) := by
  rw [moveToStart, if_pos h, setOffset_of_le b _ (Nat.zero_le n)]

theorem window_moved {k : ℕ} (h : buf.offset + k ≤ n) :
    window buf.moved.arr 0 k = window buf.arr buf.offset k := by
  have hm := window_move (l := buf.arr) (by rw [buf.length_arr]; exact h)
  rw [buf.length_arr] at hm
  rw [moved, dif_pos (by omega)]
  exact hm

theorem size_of_le (h : buf.offset ≤ n) : buf.size = n - buf.offset :=
  subSize_of_le h (by have := buf.size_lt; omega)

theorem store_of_le {i : ℕ} {bs : List Byte} (h : buf.offset + i + bs.length ≤ n) :
    buf.store i bs = .ok (buf.stored i bs) := if_pos h

theorem store_of_lt {i : ℕ} {bs : List Byte} (h : n < buf.offset + i + bs.length) :
    buf.store i bs = .error .outOfBounds := if_neg (by omega)

@[simp] theorem stored_offset (i : ℕ) (bs : List Byte) : (buf.stored i bs).offset = buf.offset := by
  unfold stored
  split_ifs <;> rfl

theorem stored_arr {i : ℕ} {bs : List Byte} (h : buf.offset + i + bs.length ≤ n) :
    (buf.stored i bs).arr = overwrite buf.arr (buf.offset + i) bs := by
  rw [stored, dif_pos h]

theorem ext_of {buf buf' : Buffer n} (ha : buf.arr = buf'.arr) (ho : buf.offset = buf'.offset) :
    buf = buf' := by
  cases buf
  cases buf'
  simp_all

@[simp] theorem stored_nil (i : ℕ) : buf.stored i [] = buf := by
  unfold stored
  split_ifs
  · exact ext_of (overwrite_nil _ _) rfl
  · rfl

theorem stored_stored {i : ℕ} {bs cs : List Byte}
    (h : buf.offset + i + (bs ++ cs).length ≤ n) :
    (buf.stored i bs).stored (i + bs.length) cs = buf.stored i (bs ++ cs) := by
  rw [List.length_append] at h
  have hb : buf.offset + i + bs.length ≤ n := by omega
  refine ext_of ?_ (by simp)
  rw [stored_arr _ (by rw [stored_offset]; omega), stored_arr _ hb,
    stored_arr _ (by rw [List.length_append]; omega), stored_offset, ← Nat.add_assoc,
    overwrite_overwrite (by rw [buf.length_arr]; exact hb)]

end Buffer

end PollServer
