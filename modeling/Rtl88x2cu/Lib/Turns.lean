import Mathlib.Algebra.Order.Ring.Nat
import Mathlib.Data.List.Count
import Mathlib.Tactic.Common

/-!
# Things taken and put back in turn

A log records what is done to a thing: `tk` and `pt` are the entries for taking it and for putting
it back. `InTurn tk pt log` says that the thing is taken first, then put back exactly once before
it is taken again, and so on: at no point of the log has it been put back more often than taken, or
taken twice without being put back.

`Out tk pt k log` adds what the next entry depends on: the thing is in (`k = 0`) or out (`k = 1`) at
the end of the log.
-/

namespace Rtl88x2cu

variable {α : Type*} [DecidableEq α] {tk pt x : α} {k : ℕ} {log : List α}

/-- At every point of the log, the thing has been put back as often as it was taken, or once
less. -/
def InTurn (tk pt : α) (log : List α) : Prop :=
  ∀ pre, pre <+: log → pre.count pt ≤ pre.count tk ∧ pre.count tk ≤ pre.count pt + 1

/-- The thing has been taken `k` times more often than put back. -/
structure Out (tk pt : α) (k : ℕ) (log : List α) : Prop where
  turn : InTurn tk pt log
  count_eq : log.count tk = log.count pt + k

/-- A log is in turn if it was before its last entry, and the counts at the end agree. -/
theorem InTurn.concat (h : InTurn tk pt log)
    (hle : (log ++ [x]).count pt ≤ (log ++ [x]).count tk)
    (hlt : (log ++ [x]).count tk ≤ (log ++ [x]).count pt + 1) :
    InTurn tk pt (log ++ [x]) := by
  intro pre hpre
  obtain rfl | hpre := List.prefix_concat_iff.mp hpre
  · exact ⟨hle, hlt⟩
  · exact h pre hpre

theorem Out.nil : Out tk pt 0 ([] : List α) := by
  refine ⟨fun pre hpre => ?_, rfl⟩
  rw [List.prefix_nil.mp hpre]
  simp

/-- A thing that is in may be taken. -/
theorem Out.take (h : Out tk pt 0 log) (hne : tk ≠ pt) : Out tk pt 1 (log ++ [tk]) := by
  have hcount := h.count_eq
  have hpt : [tk].count pt = 0 := by simp [hne]
  refine ⟨h.turn.concat ?_ ?_, ?_⟩ <;>
    simp only [List.count_append, List.count_singleton_self, hpt] <;> omega

/-- A thing that is out may be put back. -/
theorem Out.put (h : Out tk pt 1 log) (hne : tk ≠ pt) : Out tk pt 0 (log ++ [pt]) := by
  have hcount := h.count_eq
  have htk : [pt].count tk = 0 := by simp [hne.symm]
  refine ⟨h.turn.concat ?_ ?_, ?_⟩ <;>
    simp only [List.count_append, List.count_singleton_self, htk] <;> omega

/-- Other things may be taken and put back at any point. -/
theorem Out.other (h : Out tk pt k log) (htk : x ≠ tk) (hpt : x ≠ pt) :
    Out tk pt k (log ++ [x]) := by
  have hcount := h.count_eq
  have hend := h.turn log (List.prefix_refl log)
  have htk : [x].count tk = 0 := by simp [htk]
  have hpt : [x].count pt = 0 := by simp [hpt]
  refine ⟨h.turn.concat ?_ ?_, ?_⟩ <;> simp only [List.count_append, htk, hpt] <;> omega

end Rtl88x2cu
