import Mathlib.Algebra.Order.Ring.Nat
import Mathlib.Data.Int.ModEq
import Rtl88x2cu.Lib.Ring

/-!
# Ring index arithmetic of the data path

The status codes of the data path and the two functions of `phl/phl_tx.c` that tell how much can be
read from or written to a ring, given its read and write pointers. The C code computes in `int` and
returns a `u16`; the model computes in `ℤ` and reduces.
-/

namespace Rtl88x2cu.Trx

/-- `enum rtw_phl_status`, as far as the data path uses it. -/
inductive RtwPhlStatus where
  | success
  | failure
  | resource
  deriving DecidableEq, Repr

/-- `MAX_PHL_RING_ENTRY_NUM`. -/
def maxPhlRingEntryNum : ℕ := 4096

/-- Conversion of an `int` to `u16`. -/
def toU16 (x : ℤ) : ℕ := (x % 65536).toNat

/-- `phl_calc_avail_rptr`. -/
def phlCalcAvailRptr (rptr wptr bndy : ℕ) : ℕ :=
  if rptr ≤ wptr then toU16 (wptr - rptr) else toU16 (wptr + (bndy - rptr))

/-- `phl_calc_avail_wptr`. -/
def phlCalcAvailWptr (rptr wptr bndy : ℕ) : ℕ :=
  if wptr < rptr then toU16 (rptr - wptr - 1) else toU16 (rptr + (bndy - wptr) - 1)

/-- The index after `ptr`: the ring code's `ptr + 1`, set to 0 at `MAX_PHL_RING_ENTRY_NUM`. -/
def nextPtr (ptr : ℕ) : ℕ := if maxPhlRingEntryNum ≤ ptr + 1 then 0 else ptr + 1

theorem toU16_natCast {n : ℕ} (hn : n < 65536) : toU16 n = n := by
  unfold toU16
  omega

theorem nextPtr_eq {ptr : ℕ} (h : ptr < maxPhlRingEntryNum) :
    nextPtr ptr = (ptr + 1) % maxPhlRingEntryNum := by
  unfold nextPtr
  by_cases hwrap : maxPhlRingEntryNum ≤ ptr + 1
  · have hlast : ptr + 1 = maxPhlRingEntryNum := Nat.le_antisymm h hwrap
    rw [if_pos hwrap, hlast, Nat.mod_self]
  · rw [if_neg hwrap, Nat.mod_eq_of_lt (Nat.lt_of_not_le hwrap)]

/-- Incrementing an index, or resetting it when the next slot is slot 0, moves it to that slot. -/
theorem inc_or_reset_eq {ptr next : ℕ} (h : ptr < maxPhlRingEntryNum)
    (hnext : next = (ptr + 1) % maxPhlRingEntryNum) :
    (if next ≠ 0 then ptr + 1 else 0) = next := by
  rw [← nextPtr_eq h, nextPtr] at hnext
  split at hnext <;> split <;> omega

variable {α : Type*} {N r w : ℕ} {e : ℕ → Option α} {l : List α}

/-- On the indices of a ring, `phl_calc_avail_rptr` is the number of waiting elements. -/
theorem phlCalcAvailRptr_eq (h : Ring N e r w l) (hN : N ≤ 65536) :
    phlCalcAvailRptr r w N = l.length := by
  have hlt := h.length_lt
  unfold phlCalcAvailRptr
  by_cases hrw : r ≤ w
  · rw [if_pos hrw, ← Nat.cast_sub hrw, ← h.length_eq_sub hrw, toU16_natCast (by omega)]
  · rw [if_neg hrw, ← Nat.cast_sub h.read_lt.le, ← Nat.cast_add,
      ← h.length_eq_wrap (by omega), toU16_natCast (by omega)]

/-- On the indices of a ring, `phl_calc_avail_wptr` is the number of free places. -/
theorem phlCalcAvailWptr_eq (h : Ring N e r w l) (hN : N ≤ 65536) :
    phlCalcAvailWptr r w N = N - 1 - l.length := by
  have hlt := h.length_lt
  have hr := h.read_lt
  unfold phlCalcAvailWptr toU16
  by_cases hrw : r ≤ w
  · have hlen := h.length_eq_sub hrw
    have hw := h.write_lt
    rw [if_neg (by omega)]
    omega
  · have hlen := h.length_eq_wrap (by omega)
    rw [if_pos (by omega)]
    omega

end Rtl88x2cu.Trx
