import Mathlib.Algebra.Order.Ring.Nat
import Mathlib.Data.List.ReduceOption
import Mathlib.Data.Multiset.Basic

/-!
# Arrays of optional entries

A fixed-size array of pointers that may be `NULL` is a `List (Option α)`. `slot l i` reads the
entry at index `i` and `held l` lists the entries present, in index order.

The lemmas say what filling or clearing one slot does to the entries held, as a multiset
(`held_set_none`, `held_set_some`) and in number.
-/

namespace Rtl88x2cu

variable {α : Type*}

/-- The entry at index `i`; `none` for an empty slot and outside the array. -/
def slot (l : List (Option α)) (i : ℕ) : Option α := l.getD i none

/-- The entries present, in index order. -/
def held (l : List (Option α)) : List α := l.reduceOption

@[simp]
theorem slot_nil (i : ℕ) : slot ([] : List (Option α)) i = none := by simp [slot]

@[simp]
theorem slot_cons_zero (x : Option α) (l : List (Option α)) : slot (x :: l) 0 = x := rfl

@[simp]
theorem slot_cons_succ (x : Option α) (l : List (Option α)) (i : ℕ) :
    slot (x :: l) (i + 1) = slot l i := rfl

@[simp]
theorem slot_replicate_none (n i : ℕ) : slot (List.replicate n (none : Option α)) i = none := by
  rw [slot, List.getD_eq_getElem?_getD, List.getElem?_replicate]
  split <;> rfl

@[simp]
theorem held_replicate_none (n : ℕ) : held (List.replicate n (none : Option α)) = [] := by
  simp [held]

/-- The slot just written holds the value written. -/
theorem slot_set_self {l : List (Option α)} {i : ℕ} (x : Option α) (hi : i < l.length) :
    slot (l.set i x) i = x := by
  simp [slot, hi]

/-- Writing a slot leaves the others alone. -/
theorem slot_set_ne {l : List (Option α)} {i j : ℕ} (x : Option α) (h : i ≠ j) :
    slot (l.set i x) j = slot l j := by
  simp [slot, List.getD_eq_getElem?_getD, List.getElem?_set_ne h]

/-- Clearing a slot, whether it exists or not, leaves it empty. -/
@[simp]
theorem slot_set_none_self (l : List (Option α)) (i : ℕ) : slot (l.set i none) i = none := by
  by_cases hi : i < l.length
  · exact slot_set_self none hi
  · simp [slot, hi]

/-- A slot that holds an entry lies inside the array. -/
theorem lt_length_of_slot {l : List (Option α)} {i : ℕ} {a : α} (h : slot l i = some a) :
    i < l.length := by
  by_contra hi
  simp [slot, hi] at h

/-- Clearing a full slot takes exactly its entry out of the array. -/
theorem held_set_none {l : List (Option α)} {i : ℕ} {a : α} (h : slot l i = some a) :
    (held l : Multiset α) = a ::ₘ (held (l.set i none) : Multiset α) := by
  induction l generalizing i with
  | nil => simp at h
  | cons x l ih =>
    cases i with
    | zero =>
      have hx : x = some a := h
      simp [hx, held]
    | succ i =>
      cases x with
      | none => simpa [held] using ih h
      | some b =>
        have hih := ih h
        rw [held, List.reduceOption_cons_of_some, ← Multiset.cons_coe]
        rw [held] at hih
        rw [hih, Multiset.cons_swap]
        simp [held]

/-- Filling an empty slot adds exactly the new entry to the array. -/
theorem held_set_some {l : List (Option α)} {i : ℕ} (a : α) (hi : i < l.length)
    (h : slot l i = none) :
    (held (l.set i (some a)) : Multiset α) = a ::ₘ (held l : Multiset α) := by
  have hset : slot (l.set i (some a)) i = some a := slot_set_self _ hi
  have hback : (l.set i (some a)).set i none = l := by
    have hget : l[i] = none := by simpa [slot, hi] using h
    rw [List.set_set, ← hget, List.set_getElem_self]
  rw [held_set_none hset, hback]

/-- The number of entries held drops by one when a full slot is cleared. -/
theorem length_held_set_none {l : List (Option α)} {i : ℕ} {a : α} (h : slot l i = some a) :
    (held l).length = (held (l.set i none)).length + 1 := by
  simpa using congrArg Multiset.card (held_set_none h)

/-- The number of entries held grows by one when an empty slot is filled. -/
theorem length_held_set_some {l : List (Option α)} {i : ℕ} (a : α) (hi : i < l.length)
    (h : slot l i = none) :
    (held (l.set i (some a))).length = (held l).length + 1 := by
  simpa using congrArg Multiset.card (held_set_some a hi h)

/-- An array holds at most one entry per slot. -/
theorem length_held_le (l : List (Option α)) : (held l).length ≤ l.length :=
  List.reduceOption_length_le l

/-- An entry is held iff it sits in some slot. -/
theorem mem_held_iff {l : List (Option α)} {a : α} : a ∈ held l ↔ ∃ i, slot l i = some a := by
  rw [held, List.reduceOption_mem_iff, List.mem_iff_getElem?]
  constructor
  · rintro ⟨i, hi⟩
    exact ⟨i, by simp [slot, hi]⟩
  · rintro ⟨i, hi⟩
    have hlt := lt_length_of_slot hi
    refine ⟨i, ?_⟩
    rw [List.getElem?_eq_getElem hlt]
    simpa [slot, hlt] using hi

/-- An array with at least one entry has a full slot. -/
theorem exists_slot_of_length_held_ne_zero {l : List (Option α)} (h : (held l).length ≠ 0) :
    ∃ i a, slot l i = some a := by
  obtain ⟨a, ha⟩ := List.exists_mem_of_length_pos (Nat.pos_of_ne_zero h)
  obtain ⟨i, hi⟩ := mem_held_iff.mp ha
  exact ⟨i, a, hi⟩

/-- An array with no entry has only empty slots. -/
theorem slot_eq_none_of_length_held {l : List (Option α)} (h : (held l).length = 0) (i : ℕ) :
    slot l i = none := by
  rw [Option.eq_none_iff_forall_not_mem]
  intro a ha
  have hmem : a ∈ held l := mem_held_iff.mpr ⟨i, ha⟩
  rw [List.length_eq_zero_iff.mp h] at hmem
  cases hmem

end Rtl88x2cu
