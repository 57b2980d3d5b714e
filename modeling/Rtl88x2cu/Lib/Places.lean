import Mathlib.Algebra.Order.Ring.Nat
import Mathlib.Data.List.FinRange
import Mathlib.Data.List.Nodup
import Mathlib.Data.List.Perm.Basic
import Mathlib.Logic.Function.Basic
import Mathlib.Tactic.Common

/-!
# Things in four places

A fixed stock of things is spread over four places, given as lists. `Placed all a b c d` says that
each thing of the stock is in exactly one place, once.

Moving a thing from one place to another keeps this, whatever the order in the places:
`Placed.of_perm`. A thing in one place is in no other: `Placed.not_mem_b` and the like. A change
to one thing (`Function.update`) is not seen in the places where it is not: `forall_update`.
-/

namespace Rtl88x2cu

variable {α β : Type} {all a b c d a' b' c' d' : List α} {x : α}

/-- Each thing of the stock is in exactly one of four places. -/
structure Placed (all a b c d : List α) : Prop where
  perm : (a ++ b ++ c ++ d).Perm all
  nodup : all.Nodup

/-- The things have been moved around. -/
theorem Placed.of_perm (h : Placed all a b c d)
    (hp : (a' ++ b' ++ c' ++ d').Perm (a ++ b ++ c ++ d)) : Placed all a' b' c' d' :=
  ⟨hp.trans h.perm, h.nodup⟩

theorem Placed.nodup_append (h : Placed all a b c d) : (a ++ b ++ c ++ d).Nodup :=
  h.perm.nodup_iff.mpr h.nodup

theorem Placed.mem_or (h : Placed all a b c d) (hx : x ∈ all) : x ∈ a ∨ x ∈ b ∨ x ∈ c ∨ x ∈ d := by
  have hmem := h.perm.mem_iff.mpr hx
  simpa [or_assoc] using hmem

/-- A thing in the first place is in no other. -/
theorem Placed.sep_a (h : Placed all a b c d) (hx : x ∈ a) : x ∉ b ∧ x ∉ c ∧ x ∉ d := by
  have hn := h.nodup_append
  simp only [List.append_assoc] at hn
  have hdisj := (List.nodup_append.mp hn).2.2
  refine ⟨fun hb => ?_, fun hc => ?_, fun hd => ?_⟩
  · exact hdisj x hx x (by simp [hb]) rfl
  · exact hdisj x hx x (by simp [hc]) rfl
  · exact hdisj x hx x (by simp [hd]) rfl

/-- The places are interchangeable. -/
theorem Placed.rotate (h : Placed all a b c d) : Placed all b c d a := by
  have hcomm : ((b ++ c ++ d) ++ a).Perm (a ++ (b ++ c ++ d)) := List.perm_append_comm
  refine h.of_perm ?_
  simpa [List.append_assoc] using hcomm

theorem Placed.sep_b (h : Placed all a b c d) (hx : x ∈ b) : x ∉ a ∧ x ∉ c ∧ x ∉ d := by
  obtain ⟨hc, hd, ha⟩ := h.rotate.sep_a hx
  exact ⟨ha, hc, hd⟩

theorem Placed.sep_c (h : Placed all a b c d) (hx : x ∈ c) : x ∉ a ∧ x ∉ b ∧ x ∉ d := by
  obtain ⟨hd, ha, hb⟩ := h.rotate.rotate.sep_a hx
  exact ⟨ha, hb, hd⟩

theorem Placed.sep_d (h : Placed all a b c d) (hx : x ∈ d) : x ∉ a ∧ x ∉ b ∧ x ∉ c :=
  h.rotate.rotate.rotate.sep_a hx

theorem Placed.nodup_a (h : Placed all a b c d) : a.Nodup :=
  h.nodup_append.sublist (by simp [List.append_assoc])

theorem Placed.nodup_b (h : Placed all a b c d) : b.Nodup := h.rotate.nodup_a

/-- What holds of all things of a list still holds when another thing has changed. -/
theorem forall_update [DecidableEq α] {P : α → β → Prop} {l : List α} {f : α → β} {y : β}
    (h : ∀ z ∈ l, P z (f z)) (hx : x ∉ l) : ∀ z ∈ l, P z (Function.update f x y z) := by
  intro z hz
  have hne : z ≠ x := fun heq => hx (heq ▸ hz)
  rw [Function.update_of_ne hne]
  exact h z hz

end Rtl88x2cu
