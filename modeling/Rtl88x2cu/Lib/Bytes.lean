import Mathlib.Algebra.Order.Ring.Nat
import Mathlib.Tactic.Common

/-!
# Byte buffers

A buffer is a list of bytes. `slice` reads a part of it and `memcpy` writes over a part of it; `le`
and `ofLe` are the little-endian bytes of a number and the number of given bytes.

The lemmas about `slice` and `memcpy` work on buffers that are written as a concatenation, with the
offset at the boundary of two parts.
-/

namespace Rtl88x2cu.Bytes

abbrev Byte := BitVec 8

/-- Addresses of four bytes, and numbers of four bits, have literals. -/
instance neZero_four : NeZero 4 := ⟨by decide⟩

instance neZero_sixteen : NeZero 16 := ⟨by decide⟩

/-! ## Numbers -/

/-- The `n` low bytes of `v`, the lowest first. -/
def le : ℕ → ℕ → List Byte
  | 0, _ => []
  | n + 1, v => BitVec.ofNat 8 v :: le n (v / 256)

/-- The number whose bytes are given, the lowest first. -/
def ofLe : List Byte → ℕ
  | [] => 0
  | b :: bs => b.toNat + 256 * ofLe bs

@[simp]
theorem length_le (n v : ℕ) : (le n v).length = n := by
  induction n generalizing v with
  | zero => rfl
  | succ n ih => rw [le, List.length_cons, ih]

/-- Bytes that have been written are read back, as far as there are enough of them. -/
theorem ofLe_le {n v : ℕ} (h : v < 256 ^ n) : ofLe (le n v) = v := by
  induction n generalizing v with
  | zero => simp_all [le, ofLe]
  | succ n ih =>
    have hdiv : v / 256 < 256 ^ n := by
      rw [Nat.pow_succ] at h
      omega
    rw [le, ofLe, ih hdiv, BitVec.toNat_ofNat]
    omega

theorem le_zero (n : ℕ) : le n 0 = List.replicate n 0 := by
  induction n with
  | zero => rfl
  | succ n ih =>
    rw [le, Nat.zero_div, ih]
    rfl

theorem le_add (m n v : ℕ) : le (m + n) v = le m v ++ le n (v / 256 ^ m) := by
  induction m generalizing v with
  | zero => simp [le]
  | succ m ih =>
    rw [Nat.succ_add, le, ih, le, Nat.div_div_eq_div_mul, Nat.pow_succ, Nat.mul_comm (256 ^ m)]
    rfl

/-- The bytes above a number that is small are zero. -/
theorem le_add_of_lt {m v : ℕ} (h : v < 256 ^ m) (n : ℕ) :
    le (m + n) v = le m v ++ List.replicate n 0 := by
  rw [le_add, Nat.div_eq_of_lt h, le_zero]

/-! ## Buffers -/

/-- `len` bytes from `off` on. -/
def slice (buf : List Byte) (off len : ℕ) : List Byte := (buf.drop off).take len

/-- `src` is written over the bytes from `off` on. -/
def memcpy (buf : List Byte) (off : ℕ) (src : List Byte) : List Byte :=
  buf.take off ++ src ++ buf.drop (off + src.length)

variable {a b c : List Byte} {off len : ℕ}

/-- The middle one of three parts. -/
theorem slice_middle (hoff : a.length = off) (hlen : b.length = len) :
    slice (a ++ (b ++ c)) off len = b := by
  rw [slice, ← hoff, ← hlen, List.drop_left, List.take_left]

theorem slice_last (hoff : a.length = off) (hlen : b.length = len) :
    slice (a ++ b) off len = b := by
  rw [slice, ← hoff, ← hlen, List.drop_left, List.take_length]

theorem length_slice {buf : List Byte} (h : off + len ≤ buf.length) :
    (slice buf off len).length = len := by
  rw [slice, List.length_take, List.length_drop]
  omega

theorem slice_append {buf : List Byte} (h : off + len ≤ buf.length) :
    slice (buf ++ b) off len = slice buf off len := by
  rw [slice, slice, List.drop_append_of_le_length (by omega), List.take_append_of_le_length]
  rw [List.length_drop]
  omega

/-- A slice of the last one of two parts. -/
theorem slice_append_right (a b : List Byte) (off len : ℕ) :
    slice (a ++ b) (a.length + off) len = slice b off len := by
  rw [slice, slice, List.drop_length_add_append]

theorem getD_eq_slice (buf : List Byte) (off : ℕ) :
    buf.getD off 0 = (slice buf off 1).getD 0 0 := by
  rw [slice, List.getD_eq_getElem?_getD, List.getD_eq_getElem?_getD,
    List.getElem?_take_of_lt Nat.one_pos, List.getElem?_drop, Nat.add_zero]

/-- A slice behind the first `n` bytes depends on what is behind them. -/
theorem slice_congr {buf buf' : List Byte} {n : ℕ} (h : buf.drop n = buf'.drop n) (hoff : n ≤ off) :
    slice buf off len = slice buf' off len := by
  have hdrop : buf.drop off = buf'.drop off := by
    rw [← Nat.add_sub_cancel' hoff, ← List.drop_drop, ← List.drop_drop, h]
  rw [slice, slice, hdrop]

/-- The middle one of three parts is overwritten. -/
theorem memcpy_middle {src : List Byte} (hoff : a.length = off) (hlen : b.length = src.length) :
    memcpy (a ++ (b ++ c)) off src = a ++ (src ++ c) := by
  rw [memcpy, ← hoff, ← hlen, List.take_left, ← List.append_assoc a b, ← List.length_append,
    List.drop_left, List.append_assoc]

theorem memcpy_last {src : List Byte} (hoff : a.length = off) (hlen : b.length = src.length) :
    memcpy (a ++ b) off src = a ++ src := by
  have h := memcpy_middle (c := []) hoff hlen
  rwa [List.append_nil, List.append_nil] at h

@[simp]
theorem length_memcpy {buf src : List Byte} (h : off + src.length ≤ buf.length) :
    (memcpy buf off src).length = buf.length := by
  rw [memcpy, List.length_append, List.length_append, List.length_take, List.length_drop]
  omega

/-- `len` bytes from `off` on, where they are inside the buffer. -/
def load (buf : List Byte) (off len : ℕ) : Option (List Byte) :=
  if off + len ≤ buf.length then some (slice buf off len) else none

theorem load_eq {buf : List Byte} (h : off + len ≤ buf.length) :
    load buf off len = some (slice buf off len) := if_pos h

theorem load_middle (hoff : a.length = off) (hlen : b.length = len) :
    load (a ++ (b ++ c)) off len = some b := by
  rw [load_eq, slice_middle hoff hlen]
  rw [← hoff, ← hlen, List.length_append, List.length_append]
  omega

/-- A part of the middle one of three parts. -/
theorem load_part {off' : ℕ} (hoff : a.length = off) (h : off' + len ≤ b.length) :
    load (a ++ (b ++ c)) (off + off') len = some (slice b off' len) := by
  rw [load_eq, ← hoff, slice_append_right, slice_append h]
  rw [← hoff, List.length_append, List.length_append]
  omega

/-- The two bytes of a number, the highest first. -/
def be16 (n : ℕ) : List Byte := [BitVec.ofNat 8 (n / 256), BitVec.ofNat 8 n]

/-- `RTW_GET_BE16`, for the two bytes. -/
def ofBe16 (bs : List Byte) : ℕ := (bs.getD 0 0).toNat * 256 + (bs.getD 1 0).toNat

@[simp]
theorem length_be16 (n : ℕ) : (be16 n).length = 2 := rfl

theorem ofBe16_be16 {n : ℕ} (h : n < 65536) : ofBe16 (be16 n) = n := by
  simp only [ofBe16, be16, List.getD_cons_zero, List.getD_cons_succ, BitVec.toNat_ofNat]
  omega

/-- `memmove`, where it stays inside the buffer. -/
def memmove (buf : List Byte) (dst src n : ℕ) : Option (List Byte) :=
  if dst + n ≤ buf.length ∧ src + n ≤ buf.length then
    some (memcpy buf dst (slice buf src n))
  else none

/-- `memset` to zero, where it stays inside the buffer. -/
def memset (buf : List Byte) (off n : ℕ) : Option (List Byte) :=
  if off + n ≤ buf.length then some (memcpy buf off (List.replicate n 0)) else none

/-- A part is cut out: the next part is moved over it, and what is left behind that is cleared. -/
theorem memmove_memset (pre del post tail : List Byte) :
    (memmove (pre ++ (del ++ (post ++ tail))) pre.length (pre.length + del.length) post.length).bind
        (fun buf => memset buf (pre.length + post.length) del.length)
      = some (pre ++ (post ++ (List.replicate del.length 0 ++ tail))) := by
  have hslice : slice (pre ++ (del ++ (post ++ tail))) (pre.length + del.length) post.length =
    post := by
    rw [← List.append_assoc]
    exact slice_middle List.length_append rfl
  have hmove : memcpy (pre ++ (del ++ (post ++ tail))) pre.length post
      = (pre ++ post) ++ (del ++ (post ++ tail)).drop post.length := by
    rw [memcpy, List.take_left, List.drop_length_add_append]
  rw [memmove, hslice, hmove, if_pos (by simp only [List.length_append]; omega), Option.bind_some,
    memset, if_pos (by simp only [List.length_append, List.length_drop]; omega), memcpy,
    ← List.length_append, List.take_left, List.length_replicate, List.drop_length_add_append,
    List.drop_drop, Nat.add_comm post.length, List.drop_length_add_append, List.drop_left,
    List.append_assoc, List.append_assoc]

/-- A byte of the first one of two parts is changed. -/
theorem modify_append_left {f : Byte → Byte} {i : ℕ} (h : i < a.length) :
    (a ++ b).modify i f = a.modify i f ++ b := by
  induction a generalizing i with
  | nil => contradiction
  | cons x a ih =>
    cases i with
    | zero => rfl
    | succ i =>
      rw [List.cons_append, List.modify_succ_cons, ih (Nat.lt_of_succ_lt_succ h),
        List.modify_succ_cons, List.cons_append]

/-- A byte of the second one of two parts is changed. -/
theorem modify_append_right (a b : List Byte) (f : Byte → Byte) (i : ℕ) :
    (a ++ b).modify (a.length + i) f = a ++ b.modify i f :=
  List.modifyTailIdx_add _ i a b

/-- `memcpy` into the buffer, where it stays inside. -/
def overwrite (buf : List Byte) (off : ℕ) (src : List Byte) : Option (List Byte) :=
  if off + src.length ≤ buf.length then some (memcpy buf off src) else none

/-- Behind the first one of two parts. -/
theorem overwrite_append {src : List Byte} (hoff : a.length = off) (h : src.length ≤ b.length) :
    overwrite (a ++ b) off src = some (a ++ (src ++ b.drop src.length)) := by
  rw [overwrite, if_pos (by rw [List.length_append]; omega), memcpy, ← hoff, List.take_left,
    List.drop_length_add_append, List.append_assoc]

theorem overwrite_append_eq_none {src : List Byte} (hoff : a.length = off)
    (h : b.length < src.length) : overwrite (a ++ b) off src = none := by
  rw [overwrite, if_neg (by rw [List.length_append]; omega)]

end Rtl88x2cu.Bytes
