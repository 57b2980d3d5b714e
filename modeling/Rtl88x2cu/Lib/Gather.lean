import Mathlib.Algebra.BigOperators.Group.List.Basic
import Mathlib.Algebra.Order.Ring.Nat
import Rtl88x2cu.Lib.Footprint

/-!
# Ranges of what extents have one behind the other

Extents that stand anywhere in a memory are read one behind the other. `cut` gives a range of what
is read so, as extents again; none of them is empty.
-/

namespace Rtl88x2cu.Gather

open Footprint

/-- The addresses of extents, one behind the other. -/
def addrs (es : List Extent) : List ℕ := es.flatMap fun e => List.range' e.off e.len

/-- The number of addresses. -/
def total (es : List Extent) : ℕ := (es.map Extent.len).sum

/-- `n` addresses from the one at `off` on, or as many as there are. -/
def cut : List Extent → ℕ → ℕ → List Extent
  | [], _, _ => []
  | e :: es, off, n =>
    if off < e.len ∧ 0 < n then
      ⟨e.off + off, min (e.len - off) n⟩ :: cut es 0 (n - (e.len - off))
    else cut es (off - e.len) n

/-- No extent has `b` addresses in the range. -/
def Below (b : ℕ) (es : List Extent) (off n : ℕ) : Prop :=
  ∀ pre e post, es = pre ++ e :: post →
    min (total pre + e.len) (off + n) - max (total pre) off < b

section

variable {e : Extent} {es es' : List Extent} {off n b : ℕ}

@[simp]
theorem addrs_cons : addrs (e :: es) = List.range' e.off e.len ++ addrs es := List.flatMap_cons

@[simp]
theorem addrs_append : addrs (es ++ es') = addrs es ++ addrs es' := List.flatMap_append

@[simp]
theorem total_nil : total [] = 0 := rfl

@[simp]
theorem total_cons : total (e :: es) = e.len + total es := List.sum_cons

@[simp]
theorem length_addrs (es : List Extent) : (addrs es).length = total es := by
  induction es with
  | nil => rfl
  | cons e es ih => rw [addrs_cons, List.length_append, List.length_range', ih, total_cons]

@[simp]
theorem cut_zero (es : List Extent) (off : ℕ) : cut es off 0 = [] := by
  induction es generalizing off with
  | nil => rfl
  | cons e es ih => rw [cut, if_neg (by simp), ih]

/-- The range begins in the first extent. -/
theorem cut_cons_of_lt (h : off < e.len) (hn : 0 < n) :
    cut (e :: es) off n =
      ⟨e.off + off, min (e.len - off) n⟩ :: cut es 0 (n - (e.len - off)) :=
  if_pos ⟨h, hn⟩

/-- The range begins behind the first extent. -/
theorem cut_cons_of_le (h : e.len ≤ off) : cut (e :: es) off n = cut es (off - e.len) n :=
  if_neg fun hlt => absurd hlt.1 (Nat.not_lt.mpr h)

theorem length_cut_le (es : List Extent) (off n : ℕ) : (cut es off n).length ≤ es.length := by
  induction es generalizing off n with
  | nil => exact Nat.le_refl 0
  | cons e es ih =>
    rw [cut]
    split
    · exact Nat.succ_le_succ (ih _ _)
    · exact Nat.le_succ_of_le (ih _ _)

theorem len_pos_of_mem_cut (h : e ∈ cut es off n) : 0 < e.len := by
  induction es generalizing off n with
  | nil => cases h
  | cons e' es ih =>
    rw [cut] at h
    split at h
    case isTrue hlt =>
      rcases List.mem_cons.mp h with rfl | h
      · exact Nat.lt_min.mpr ⟨Nat.sub_pos_of_lt hlt.1, hlt.2⟩
      · exact ih h
    case isFalse => exact ih h

theorem take_range' (a m n : ℕ) : (List.range' a m).take n = List.range' a (min m n) := by
  rcases Nat.le_total m n with h | h
  · rw [List.take_range'_of_length_le h, Nat.min_eq_left h]
  · rw [List.take_range'_of_length_ge h, Nat.min_eq_right h]

/-- What is cut out are the addresses of the range. -/
theorem addrs_cut (es : List Extent) (off n : ℕ) :
    addrs (cut es off n) = ((addrs es).drop off).take n := by
  induction es generalizing off n with
  | nil => simp [cut, addrs]
  | cons e es ih =>
    rcases Nat.eq_zero_or_pos n with rfl | hn
    · rw [cut_zero, List.take_zero]
      rfl
    by_cases hlt : off < e.len
    · rw [cut_cons_of_lt hlt hn, addrs_cons, addrs_cons, ih, List.drop_zero,
        List.drop_append_of_le_length (by rw [List.length_range']; omega), List.take_append,
        List.drop_range', take_range', List.length_range', Nat.mul_one]
    · rw [Nat.not_lt] at hlt
      have hhead : (List.range' e.off e.len).drop off = [] :=
        List.drop_of_length_le (by rwa [List.length_range'])
      rw [cut_cons_of_le hlt, ih, addrs_cons, List.drop_append, hhead, List.length_range',
        List.nil_append]

/-- Behind the extents there is nothing. -/
theorem total_cut (es : List Extent) (off n : ℕ) :
    total (cut es off n) = min n (total es - off) := by
  rw [← length_addrs, addrs_cut, List.length_take, List.length_drop, length_addrs]

theorem Below.tail (h : Below b (e :: es) off n) : Below b es (off - e.len) (n - (e.len - off)) := by
  rintro pre e' post rfl
  have h := h (e :: pre) e' post rfl
  rw [total_cons] at h
  omega

/-- All extents together are small. -/
theorem below_of_total_lt (h : total es < b) (off n : ℕ) : Below b es off n := by
  rintro pre e post rfl
  rw [total, List.map_append, List.sum_append, List.map_cons, List.sum_cons] at h
  omega

theorem Below.len_lt (h : Below b es off n) (he : e ∈ cut es off n) : e.len < b := by
  induction es generalizing off n with
  | nil => cases he
  | cons e' es ih =>
    have htail := h.tail
    rw [cut] at he
    split at he
    case isTrue hlt =>
      rcases List.mem_cons.mp he with rfl | he
      · have h := h [] e' es rfl
        rw [total_nil] at h
        dsimp only
        omega
      · rw [Nat.sub_eq_zero_of_le (Nat.le_of_lt hlt.1)] at htail
        exact ih htail he
    case isFalse hlt =>
      rcases Nat.eq_zero_or_pos n with rfl | hn
      · rw [cut_zero] at he
        cases he
      · have hle : e'.len - off = 0 := by omega
        rw [hle, Nat.sub_zero] at htail
        exact ih htail he

end

end Rtl88x2cu.Gather
