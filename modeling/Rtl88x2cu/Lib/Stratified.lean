import Mathlib.Algebra.Order.Ring.Nat
import Mathlib.Data.List.TakeWhile
import Mathlib.Tactic.Common

/-!
# Lists in two classes

A list is stratified by a class `c` if the things of the class come first. Putting a new thing at
the end keeps this if the thing is not of the class, or if all the others are; putting a thing of
the class before the first one that is not of it always does. `pairwise_insert` says when such an
insertion keeps another order of the list.
-/

namespace Rtl88x2cu

variable {α : Type*} {c : α → Bool} {l : List α} {x : α}

/-- The things of the class come first. -/
def Stratified (c : α → Bool) (l : List α) : Prop :=
  l.Pairwise fun a b => c b = true → c a = true

/-- Behind the things of the class there are no others of it. -/
theorem Stratified.of_mem_dropWhile (h : Stratified c l) : ∀ y ∈ l.dropWhile c, c y = false := by
  induction l with
  | nil => simp
  | cons a l ih =>
    obtain ⟨ha, hl⟩ := List.pairwise_cons.mp h
    cases hca : c a with
    | true =>
      rw [List.dropWhile_cons_of_pos hca]
      exact ih hl
    | false =>
      rw [List.dropWhile_cons_of_neg (by simp [hca])]
      intro y hy
      rcases List.mem_cons.mp hy with rfl | hy
      · exact hca
      · by_contra hcy
        rw [Bool.not_eq_false] at hcy
        rw [ha y hy hcy] at hca
        cases hca

/-- An order is kept by an insertion if the new thing fits in. -/
theorem pairwise_insert {R : α → α → Prop} (h : l.Pairwise R) {p : α → Bool}
    (hbefore : ∀ a ∈ l.takeWhile p, R a x) (hafter : ∀ b ∈ l.dropWhile p, R x b) :
    (l.takeWhile p ++ x :: l.dropWhile p).Pairwise R := by
  rw [← List.takeWhile_append_dropWhile (p := p) (l := l)] at h
  obtain ⟨htake, hdrop, hcross⟩ := List.pairwise_append.mp h
  refine List.pairwise_append.mpr ⟨htake, List.pairwise_cons.mpr ⟨hafter, hdrop⟩,
    fun a ha b hb => ?_⟩
  rcases List.mem_cons.mp hb with rfl | hb
  · exact hbefore a ha
  · exact hcross a ha b hb

/-- An order is kept at the end of the list. -/
theorem pairwise_snoc {R : α → α → Prop} (h : l.Pairwise R) (hx : ∀ a ∈ l, R a x) :
    (l ++ [x]).Pairwise R := by
  refine List.pairwise_append.mpr ⟨h, List.pairwise_singleton _ _, fun a ha b hb => ?_⟩
  rw [List.mem_singleton.mp hb]
  exact hx a ha

theorem Stratified.snoc (h : Stratified c l) (hx : c x = false ∨ ∀ a ∈ l, c a = true) :
    Stratified c (l ++ [x]) := by
  refine pairwise_snoc h fun a ha hcx => ?_
  rcases hx with hx | hx
  · rw [hx] at hcx
    cases hcx
  · exact hx a ha

/-! ### Insertion by class -/

/-- Where a new thing `x` is not inserted yet. -/
def goesBehind (c : α → Bool) (x y : α) : Bool := !(c x && !c y)

theorem of_mem_takeWhile {a : α} (ha : a ∈ l.takeWhile (goesBehind c x)) (hx : c x = true) :
    c a = true := by
  have hbehind : goesBehind c x a = true := List.mem_takeWhile_imp ha
  simpa [goesBehind, hx] using hbehind

/-- What comes behind an inserted thing is of the lower class, and the thing is not. -/
theorem Stratified.of_mem_dropWhile_insert (h : Stratified c l) {b : α}
    (hb : b ∈ l.dropWhile (goesBehind c x)) : c x = true ∧ c b = false := by
  cases hx : c x with
  | true =>
    have hp : goesBehind c x = c := by
      funext y
      simp [goesBehind, hx]
    rw [hp] at hb
    exact ⟨rfl, h.of_mem_dropWhile b hb⟩
  | false =>
    -- a thing that is not of the class goes to the end
    have hnil : l.dropWhile (goesBehind c x) = [] := by
      rw [List.dropWhile_eq_nil_iff]
      intro y _
      simp [goesBehind, hx]
    rw [hnil] at hb
    cases hb

theorem Stratified.insert (h : Stratified c l) :
    Stratified c (l.takeWhile (goesBehind c x) ++ x :: l.dropWhile (goesBehind c x)) := by
  refine pairwise_insert h (fun a ha hx => of_mem_takeWhile ha hx) fun b hb hcb => ?_
  rw [(h.of_mem_dropWhile_insert hb).2] at hcb
  cases hcb

end Rtl88x2cu
