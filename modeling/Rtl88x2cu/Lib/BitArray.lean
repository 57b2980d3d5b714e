import Mathlib.Algebra.Order.Ring.Nat
import Mathlib.Logic.Function.Basic
import Mathlib.Tactic.Common

/-!
# Bitmaps stored in arrays of words

A bitmap over the natural numbers, kept in an array of words of `w` bits: bit `i` is bit `i % w` of
word `i / w`. `test`, `set` and `clear` are the usual operations with a mask. The bitmap is
determined by its bits (`ext`), so the operations are described by their effect on the bits.
-/

namespace Rtl88x2cu.BitArray

variable {w : ℕ}

/-- Bit `i` is set. -/
def test (map : ℕ → BitVec w) (i : ℕ) : Bool := (map (i / w)).getLsbD (i % w)

/-- Set bit `i`. -/
def set (map : ℕ → BitVec w) (i : ℕ) : ℕ → BitVec w :=
  Function.update map (i / w) (map (i / w) ||| BitVec.twoPow w (i % w))

/-- Clear bit `i`. -/
def clear (map : ℕ → BitVec w) (i : ℕ) : ℕ → BitVec w :=
  Function.update map (i / w) (map (i / w) &&& ~~~ BitVec.twoPow w (i % w))

variable {map map' : ℕ → BitVec w} {i j : ℕ}

/-- Two indices in one word are told apart by their bits. -/
theorem index_eq_iff (h : j / w = i / w) : j = i ↔ i % w = j % w := by
  constructor
  · rintro rfl
    rfl
  · intro hmod
    rw [← Nat.div_add_mod j w, h, ← hmod, Nat.div_add_mod]

section

variable (hw : 0 < w)

include hw

theorem test_set (map : ℕ → BitVec w) (i j : ℕ) :
    test (set map i) j = (decide (j = i) || test map j) := by
  unfold test set
  by_cases hword : j / w = i / w
  · rw [hword, Function.update_self, BitVec.getLsbD_or, BitVec.getLsbD_twoPow, Bool.or_comm,
      decide_eq_true (Nat.mod_lt i hw), Bool.true_and, decide_eq_decide.mpr (index_eq_iff hword)]
  · have hne : j ≠ i := fun h => hword (by rw [h])
    rw [Function.update_of_ne hword, decide_eq_false hne, Bool.false_or]

theorem test_clear (map : ℕ → BitVec w) (i j : ℕ) :
    test (clear map i) j = (!decide (j = i) && test map j) := by
  unfold test clear
  by_cases hword : j / w = i / w
  · rw [hword, Function.update_self, BitVec.getLsbD_and, BitVec.getLsbD_not,
      BitVec.getLsbD_twoPow, Bool.and_comm, decide_eq_true (Nat.mod_lt i hw),
      decide_eq_true (Nat.mod_lt j hw), Bool.true_and, Bool.true_and,
      decide_eq_decide.mpr (index_eq_iff hword)]
  · have hne : j ≠ i := fun h => hword (by rw [h])
    rw [Function.update_of_ne hword, decide_eq_false hne, Bool.not_false, Bool.true_and]

/-- A bitmap is given by its bits. -/
theorem ext (h : ∀ i, test map i = test map' i) : map = map' := by
  ext n b hb
  have hword : (w * n + b) / w = n := by
    rw [Nat.mul_add_div hw, Nat.div_eq_of_lt hb, Nat.add_zero]
  have hbit : (w * n + b) % w = b := by
    rw [Nat.mul_add_mod, Nat.mod_eq_of_lt hb]
  have htest := h (w * n + b)
  unfold test at htest
  rw [hword, hbit] at htest
  rwa [← BitVec.getLsbD_eq_getElem, ← BitVec.getLsbD_eq_getElem]

/-- Clearing a bit that has just been set, and was not set before. -/
theorem clear_set (h : test map i = false) : clear (set map i) i = map := by
  refine ext hw fun j => ?_
  rw [test_clear hw, test_set hw]
  by_cases hj : j = i
  · rw [hj, h, decide_eq_true rfl, Bool.not_true, Bool.false_and]
  · rw [decide_eq_false hj, Bool.not_false, Bool.true_and, Bool.false_or]

end

/-- The masked word is zero iff the bit is clear. -/
theorem mask_ne_zero_iff (map : ℕ → BitVec w) (i : ℕ) :
    (map (i / w) &&& BitVec.twoPow w (i % w)).toNat ≠ 0 ↔ test map i = true := by
  unfold test
  rw [BitVec.and_twoPow]
  cases hbit : (map (i / w)).getLsbD (i % w) with
  | false => simp
  | true =>
    have hlt : i % w < w := BitVec.lt_of_getLsbD hbit
    simp [BitVec.toNat_twoPow_of_lt hlt]

end Rtl88x2cu.BitArray
