import Mathlib.Algebra.Order.Ring.Nat
import Mathlib.Data.Nat.ModEq
import Mathlib.Tactic.Common

/-!
# Indices of a circular buffer

Facts about the indices `(i + t) % B` met when a buffer of size `B` is walked from the slot `i`
on: the walk visits pairwise distinct slots in its first `B` steps, every slot is visited in
one of them, and `stepsTo i j` counts the steps left from `j` back to `i`.
-/

namespace Rtl88x2cu

variable {B i s t : ℕ}

/-- One more step of the walk. -/
theorem cyclic_succ (B i t : ℕ) : ((i + t) % B + 1) % B = (i + (t + 1)) % B := by
  rw [Nat.mod_add_mod, Nat.add_assoc]

/-- The walk does not meet the same slot twice within `B` steps. -/
theorem cyclic_injective (hs : s < B) (ht : t < B) (h : (i + s) % B = (i + t) % B) : s = t :=
  (Nat.ModEq.add_left_cancel' i h).eq_of_lt_of_lt hs ht

/-- Every slot is met within `B` steps. -/
theorem exists_cyclic_eq (hi : i < B) {j : ℕ} (hj : j < B) : ∃ t < B, (i + t) % B = j := by
  by_cases h : i ≤ j
  · exact ⟨j - i, by omega, by rw [Nat.add_sub_cancel' h, Nat.mod_eq_of_lt hj]⟩
  · refine ⟨j + B - i, by omega, ?_⟩
    rw [show i + (j + B - i) = j + B by omega, Nat.add_mod_right, Nat.mod_eq_of_lt hj]

/-- The number of steps from slot `j` to slot `i`. -/
def stepsTo (B i j : ℕ) : ℕ := (i + B - j) % B

/-- After `t` steps from `i`, with `0 < t ≤ B`, it takes `B - t` more to be back. -/
theorem stepsTo_cyclic (hi : i < B) (ht : 0 < t) (htB : t ≤ B) :
    stepsTo B i ((i + t) % B) = B - t := by
  unfold stepsTo
  by_cases h : i + t < B
  · rw [Nat.mod_eq_of_lt h, show i + B - (i + t) = B - t by omega, Nat.mod_eq_of_lt (by omega)]
  · rw [show i + t = i + t - B + B by omega, Nat.add_mod_right,
      Nat.mod_eq_of_lt (show i + t - B < B by omega)]
    rcases Nat.lt_or_eq_of_le htB with hlt | heq
    · rw [show i + B - (i + t - B) = B - t + B by omega, Nat.add_mod_right,
        Nat.mod_eq_of_lt (by omega)]
    · rw [heq, show i + B - (i + B - B) = B by omega, Nat.mod_self, Nat.sub_self]

/-- A step towards `i` shortens the way, unless the walk is already there. -/
theorem stepsTo_succ_lt (hi : i < B) {j : ℕ} (hj : j < B) (hne : j ≠ i) :
    stepsTo B i ((j + 1) % B) < stepsTo B i j := by
  obtain ⟨t, ht, rfl⟩ := exists_cyclic_eq hi hj
  have ht0 : 0 < t := by
    rcases Nat.eq_zero_or_pos t with rfl | h
    · exact absurd (Nat.mod_eq_of_lt hi) hne
    · exact h
  rw [cyclic_succ, stepsTo_cyclic hi ht0 ht.le, stepsTo_cyclic hi (by omega) ht]
  omega

theorem stepsTo_lt (hB : 0 < B) (i j : ℕ) : stepsTo B i j < B := Nat.mod_lt _ hB

end Rtl88x2cu
