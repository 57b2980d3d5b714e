import Mathlib.Algebra.Order.Ring.Nat
import Mathlib.Logic.Function.Basic
import Rtl88x2cu.Lib.CyclicIndex

/-!
# Circular buffers between two indices

A circular buffer of `N` slots with a read index `r` and a write index `w`: the elements wait in
the slots *after* `r`, up to and including `w`, so that `r = w` means empty and at most `N - 1`
elements fit. `Ring N e r w l` says that the slots of `e` from `r` to `w` hold the list `l`.

A writer fills the slot after `w` before it moves `w`, and a reader may empty the slot after `r`
before it moves `r`; `Ring.write_next`, `Ring.push`, `Ring.clear_first` and `Ring.pop` are the
four half steps.
-/

namespace Rtl88x2cu

variable {α : Type*} {N r w : ℕ} {e : ℕ → Option α} {l : List α} {a : α}

/-- The slots after `r` hold the elements of `l`, in order. -/
def RingHolds (N : ℕ) (e : ℕ → Option α) (r : ℕ) (l : List α) : Prop :=
  ∀ (k : ℕ) (hk : k < l.length), e ((r + (k + 1)) % N) = some l[k]

/-- A circular buffer of `N` slots with the indices `r` and `w` and the contents `l`. -/
structure Ring (N : ℕ) (e : ℕ → Option α) (r w : ℕ) (l : List α) : Prop where
  read_lt : r < N
  length_lt : l.length < N
  write_eq : w = (r + l.length) % N
  holds : RingHolds N e r l

theorem RingHolds.nil (N : ℕ) (e : ℕ → Option α) (r : ℕ) : RingHolds N e r [] :=
  fun _ hk => absurd hk (Nat.not_lt_zero _)

/-- A write to a slot outside the contents is not seen. -/
theorem RingHolds.update (h : RingHolds N e r l) {j : ℕ}
    (hj : ∀ k < l.length, (r + (k + 1)) % N ≠ j) (x : Option α) :
    RingHolds N (Function.update e j x) r l := by
  intro k hk
  rw [Function.update_of_ne (hj k hk)]
  exact h k hk

/-- The slot after the contents is not one of theirs. -/
theorem slot_ne_next (hl : l.length + 1 < N) (k : ℕ) (hk : k < l.length) :
    (r + (k + 1)) % N ≠ (r + (l.length + 1)) % N := by
  intro h
  have := cyclic_injective (show k + 1 < N by omega) hl h
  omega

namespace Ring

/-- An empty buffer. -/
theorem empty (hr : r < N) : Ring N e r r [] where
  read_lt := hr
  length_lt := Nat.zero_lt_of_lt hr
  write_eq := (Nat.mod_eq_of_lt hr).symm
  holds := RingHolds.nil N e r

theorem write_lt (h : Ring N e r w l) : w < N := by
  rw [h.write_eq]
  exact Nat.mod_lt _ (Nat.zero_lt_of_lt h.read_lt)

/-- The slot that a writer fills next. -/
theorem next_write (h : Ring N e r w l) : (w + 1) % N = (r + (l.length + 1)) % N := by
  rw [h.write_eq, cyclic_succ]

/-- As long as one more element fits, the slot after `w` can be written. -/
theorem write_next (h : Ring N e r w l) (hl : l.length + 1 < N) (x : Option α) :
    Ring N (Function.update e ((w + 1) % N) x) r w l where
  read_lt := h.read_lt
  length_lt := h.length_lt
  write_eq := h.write_eq
  holds := by
    rw [h.next_write]
    exact h.holds.update (slot_ne_next hl) x

/-- Moving `w` over a filled slot appends its element. -/
theorem push (h : Ring N e r w l) (hl : l.length + 1 < N) (ha : e ((w + 1) % N) = some a) :
    Ring N e r ((w + 1) % N) (l ++ [a]) where
  read_lt := h.read_lt
  length_lt := by simpa using hl
  write_eq := by rw [h.next_write, List.length_append, List.length_singleton]
  holds := by
    intro k hk
    rw [List.length_append, List.length_singleton] at hk
    by_cases hlast : k < l.length
    · rw [List.getElem_append_left hlast]
      exact h.holds k hlast
    · obtain rfl : k = l.length := by omega
      rw [← h.next_write, ha, List.getElem_concat_length rfl]

/-- The slot after `r` holds the first element. -/
theorem first (h : Ring N e r w (a :: l)) : e ((r + 1) % N) = some a :=
  h.holds 0 (Nat.succ_pos _)

/-- Moving `r` drops the first element. -/
theorem pop (h : Ring N e r w (a :: l)) : Ring N e ((r + 1) % N) w l where
  read_lt := Nat.mod_lt _ (Nat.zero_lt_of_lt h.read_lt)
  length_lt := Nat.lt_of_succ_lt h.length_lt
  write_eq := by
    rw [h.write_eq, List.length_cons, Nat.mod_add_mod, Nat.add_assoc, Nat.add_comm 1]
  holds := by
    intro k hk
    have := h.holds (k + 1) (Nat.succ_lt_succ hk)
    rw [Nat.mod_add_mod, Nat.add_assoc, Nat.add_comm 1 (k + 1)]
    exact this

/-- The slot of a dropped element can be emptied: it does not come back before the writer has
gone around. -/
theorem clear_dropped (h : Ring N e ((r + 1) % N) w l) (hl : l.length + 1 < N)
    (x : Option α) : Ring N (Function.update e ((r + 1) % N) x) ((r + 1) % N) w l where
  read_lt := h.read_lt
  length_lt := h.length_lt
  write_eq := h.write_eq
  holds := by
    refine h.holds.update (fun k hk heq => ?_) x
    rw [Nat.mod_add_mod, Nat.add_assoc] at heq
    have := cyclic_injective (show 1 + (k + 1) < N by omega) (show 1 < N by omega) heq
    omega

/-- The first `n` elements, up to an earlier write index. -/
theorem take (h : Ring N e r w l) {n : ℕ} (hn : n ≤ l.length) :
    Ring N e r ((r + n) % N) (l.take n) where
  read_lt := h.read_lt
  length_lt := by
    rw [List.length_take_of_le hn]
    exact Nat.lt_of_le_of_lt hn h.length_lt
  write_eq := by rw [List.length_take_of_le hn]
  holds := by
    intro k hk
    rw [List.getElem_take]
    exact h.holds k (Nat.lt_of_lt_of_le hk (List.length_take_le' n l))

/-- The number of elements, from the two indices, when `w` has not wrapped behind `r`. -/
theorem length_eq_sub (h : Ring N e r w l) (hrw : r ≤ w) : l.length = w - r := by
  have hr := h.read_lt
  have hlt := h.length_lt
  have hw := h.write_eq
  by_cases hwrap : r + l.length < N
  · rw [Nat.mod_eq_of_lt hwrap] at hw
    omega
  · rw [Nat.mod_eq_sub_mod (by omega), Nat.mod_eq_of_lt (by omega)] at hw
    omega

/-- The number of elements when `w` has wrapped. -/
theorem length_eq_wrap (h : Ring N e r w l) (hwr : w < r) : l.length = w + (N - r) := by
  have hr := h.read_lt
  have hlt := h.length_lt
  have hw := h.write_eq
  have hwrap : N ≤ r + l.length := by
    by_contra hn
    rw [Nat.mod_eq_of_lt (by omega)] at hw
    omega
  rw [Nat.mod_eq_sub_mod hwrap, Nat.mod_eq_of_lt (by omega)] at hw
  omega

end Ring

end Rtl88x2cu
