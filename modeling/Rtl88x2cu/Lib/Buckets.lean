import Mathlib.Algebra.Order.Ring.Nat
import Mathlib.Data.List.Flatten
import Mathlib.Data.List.Nodup
import Mathlib.Data.List.Perm.Basic
import Mathlib.Logic.Function.Basic
import Mathlib.Tactic.Common

/-!
# Chained buckets

A hash table of `n` buckets is a function from numbers to chains, of which the first `n` are used.
`contents n h` lists what is in the chains.

Pushing onto a chain adds to the contents (`contents_push`), and deleting an element from the chain
it is in takes it out of the contents (`contents_erase`).
-/

namespace Rtl88x2cu

variable {α : Type} {n : ℕ} {h : ℕ → List α}

/-- The elements of the first `n` chains. -/
def contents (n : ℕ) (h : ℕ → List α) : List α := (List.range n).flatMap h

@[simp]
theorem mem_contents {x : α} : x ∈ contents n h ↔ ∃ b < n, x ∈ h b := by
  simp [contents]

theorem contents_empty (n : ℕ) : contents n (fun _ => ([] : List α)) = [] := by
  simp [contents]

theorem contents_congr {h' : ℕ → List α} (heq : ∀ b < n, h b = h' b) :
    contents n h = contents n h' := by
  unfold contents
  rw [List.flatMap_def, List.flatMap_def]
  exact congrArg List.flatten (List.map_congr_left fun b hb => heq b (List.mem_range.mp hb))

theorem contents_succ (n : ℕ) (h : ℕ → List α) : contents (n + 1) h = contents n h ++ h n := by
  simp [contents, List.range_succ]

/-- An element put at the end of a chain is put into the table. -/
theorem contents_push (x : α) {b : ℕ} (hb : b < n) :
    (contents n (Function.update h b (h b ++ [x]))).Perm (contents n h ++ [x]) := by
  induction n with
  | zero => exact absurd hb (Nat.not_lt_zero b)
  | succ n ih =>
    rw [contents_succ, contents_succ]
    by_cases hbn : b = n
    · subst hbn
      have hrest : contents b (Function.update h b (h b ++ [x])) = contents b h :=
        contents_congr fun c hc => Function.update_of_ne (Nat.ne_of_lt hc) _ _
      rw [hrest, Function.update_self, List.append_assoc]
    · rw [Function.update_of_ne (Ne.symm hbn)]
      -- the new element is moved behind the last chain
      refine ((ih (by omega)).append_right (h n)).trans ?_
      rw [List.append_assoc, List.append_assoc]
      exact List.perm_append_comm.append_left _

variable [DecidableEq α]

/-- An element is deleted from the chain it is in. -/
theorem contents_erase (hnodup : (contents n h).Nodup) (x : α) :
    contents n (fun b => (h b).erase x) = (contents n h).erase x := by
  rw [List.Nodup.erase_eq_filter hnodup, contents, contents, List.filter_flatMap]
  rw [List.flatMap_def, List.flatMap_def]
  refine congrArg List.flatten (List.map_congr_left fun b hb => ?_)
  exact List.Nodup.erase_eq_filter ((List.nodup_flatMap.mp hnodup).1 b hb) x

end Rtl88x2cu
