import Mathlib.Algebra.Order.Ring.Nat
import Mathlib.Tactic.Common

/-!
# Walks over a buffer

A loop that walks over a buffer is at a position; an iteration fails (it reads outside the buffer),
returns, or goes on at another position. `walk` runs the iterations, and returns `none` when one
fails or when there are not enough of them.

`walk_iff` says when a walk that never goes back ends well: if and only if at every position that it
comes to the iteration does not fail, does not stay where it is, and returns nothing wrong.
-/

namespace Rtl88x2cu.Walker

/-- What an iteration does: it returns, or it goes on at a position. -/
inductive Next (ρ : Type*)
  | done (r : ρ)
  | goto (p : ℕ)

variable {ρ : Type*}

/-- At most `n` iterations from the position `p` on. -/
def walk (step : ℕ → Option (Next ρ)) : ℕ → ℕ → Option ρ
  | 0, _ => none
  | n + 1, p =>
    match step p with
    | none => none
    | some (.done r) => some r
    | some (.goto q) => walk step n q

variable {step : ℕ → Option (Next ρ)}

/-- The positions that a walk comes to. -/
inductive Reaches (step : ℕ → Option (Next ρ)) (p : ℕ) : ℕ → Prop
  | refl : Reaches step p p
  | tail {q q' : ℕ} : Reaches step p q → step q = some (.goto q') → Reaches step p q'

theorem Reaches.head {p q q' : ℕ} (h : step p = some (.goto q)) (hr : Reaches step q q') :
    Reaches step p q' := by
  induction hr with
  | refl => exact .tail .refl h
  | tail _ hq ih => exact .tail ih hq

/-- Steps that go on in the same way come to the same positions. -/
theorem Reaches.mono {step' : ℕ → Option (Next ρ)} {p q : ℕ} (hr : Reaches step p q)
    (h : ∀ q q', step q = some (.goto q') → step' q = some (.goto q')) : Reaches step' p q := by
  induction hr with
  | refl => exact .refl
  | tail _ hq ih => exact ih.tail (h _ _ hq)

/-- A walk that never goes back comes to later positions only. -/
theorem Reaches.le {p q : ℕ} (hr : Reaches step p q)
    (hmono : ∀ q q', step q = some (.goto q') → q ≤ q') : p ≤ q := by
  induction hr with
  | refl => exact Nat.le_refl p
  | tail _ hq ih => exact Nat.le_trans ih (hmono _ _ hq)

theorem walk_done {p n : ℕ} {r : ρ} (h : step p = some (.done r)) :
    walk step (n + 1) p = some r := by
  rw [walk, h]

theorem walk_goto {p q n : ℕ} (h : step p = some (.goto q)) :
    walk step (n + 1) p = walk step n q := by
  rw [walk, h]

/-- More iterations do not change what a walk returns. -/
theorem walk_mono {p n m : ℕ} {r : ρ} (h : walk step n p = some r) (hnm : n ≤ m) :
    walk step m p = some r := by
  induction n generalizing p m with
  | zero => cases h
  | succ n ih =>
    obtain ⟨m, rfl⟩ := Nat.exists_eq_add_of_le' (Nat.le_trans (Nat.succ_pos n) hnm)
    cases hs : step p with
    | none => rw [walk, hs] at h; cases h
    | some nx =>
      cases nx with
      | done r' => rwa [walk_done hs] at h ⊢
      | goto q =>
        rw [walk_goto hs] at h ⊢
        exact ih h (Nat.le_of_succ_le_succ hnm)

/-- What a walk returns does not depend on the number of iterations it is given. -/
theorem walk_unique {p n m : ℕ} {r r' : ρ} (h : walk step n p = some r)
    (h' : walk step m p = some r') : r = r' := by
  have h1 := walk_mono h (Nat.le_max_left n m)
  have h2 := walk_mono h' (Nat.le_max_right n m)
  exact Option.some.inj (h1.symm.trans h2)

/-- A walk returns from a position that it comes to. -/
theorem walk_reaches {p n : ℕ} {r : ρ} (h : walk step n p = some r) :
    ∃ q, Reaches step p q ∧ step q = some (.done r) := by
  induction n generalizing p with
  | zero => cases h
  | succ n ih =>
    cases hs : step p with
    | none => rw [walk, hs] at h; cases h
    | some nx =>
      cases nx with
      | done r' =>
        rw [walk_done hs] at h
        exact ⟨p, .refl, Option.some.inj h ▸ hs⟩
      | goto q =>
        rw [walk_goto hs] at h
        obtain ⟨q', hq', hd⟩ := ih h
        exact ⟨q', hq'.head hs, hd⟩

/-- A walk that never goes back and goes on only inside a buffer returns soon, if it returns. -/
theorem walk_bound {p n : ℕ} {r : ρ} (bound : ℕ)
    (hmono : ∀ q q', step q = some (.goto q') → q ≤ q' ∧ q < bound) (h : walk step n p = some r) :
    walk step (bound - p + 1) p = some r := by
  induction n generalizing p with
  | zero => cases h
  | succ n ih =>
    cases hs : step p with
    | none => rw [walk, hs] at h; cases h
    | some nx =>
      cases nx with
      | done r' => rwa [walk_done hs] at h ⊢
      | goto q =>
        have hrest := h
        rw [walk_goto hs] at hrest
        obtain ⟨hle, hlt⟩ := hmono p q hs
        obtain rfl | hne := Nat.eq_or_lt_of_le hle
        · -- it stays where it is, with one iteration less
          exact ih hrest
        · rw [walk_goto hs]
          exact walk_mono (ih hrest) (by omega)

/-- A walk whose iterations may fail where those of another walk do not ends well if and only if the
other one does, and none of its iterations fails. -/
theorem walk_restrict_iff {step' : ℕ → Option (Next ρ)} {p n : ℕ} {r : ρ}
    (hle : ∀ q nx, step' q = some nx → step q = some nx) :
    walk step' n p = some r ↔
      walk step n p = some r ∧ ∀ q, Reaches step p q → (step' q).isSome = true := by
  constructor
  · intro h
    -- the walk goes on in the same way from every position that the other one comes to
    have hall : ∀ q, Reaches step p q → ∃ m, walk step' m q = some r := by
      intro q hq
      induction hq with
      | refl => exact ⟨n, h⟩
      | @tail q q' _ hs ih =>
        obtain ⟨m, hm⟩ := ih
        cases m with
        | zero => cases hm
        | succ m =>
          cases hs' : step' q with
          | none => rw [walk, hs'] at hm; cases hm
          | some nx =>
            obtain rfl := Option.some.inj ((hle q nx hs').symm.trans hs)
            exact ⟨m, by rwa [walk_goto hs'] at hm⟩
    constructor
    · induction n generalizing p with
      | zero => cases h
      | succ n ih =>
        cases hs' : step' p with
        | none => rw [walk, hs'] at h; cases h
        | some nx =>
          have hs := hle p nx hs'
          cases nx with
          | done r' => rwa [walk_done hs, ← walk_done (n := n) hs']
          | goto q =>
            rw [walk_goto hs'] at h
            rw [walk_goto hs]
            exact ih h fun q' hq' => hall q' (hq'.head hs)
    · intro q hq
      obtain ⟨m, hm⟩ := hall q hq
      cases hs' : step' q with
      | none =>
        cases m with
        | zero => cases hm
        | succ m => rw [walk, hs'] at hm; cases hm
      | some nx => rfl
  · rintro ⟨h, hall⟩
    induction n generalizing p with
    | zero => cases h
    | succ n ih =>
      obtain ⟨nx, hs'⟩ := Option.isSome_iff_exists.mp (hall p .refl)
      have hs := hle p nx hs'
      cases nx with
      | done r' => rwa [walk_done hs', ← walk_done (n := n) hs]
      | goto q =>
        rw [walk_goto hs] at h
        rw [walk_goto hs']
        exact ih h fun q' hq' => hall q' (hq'.head hs)

/-- What the iteration at `q` does is right: it goes on somewhere else, or what it returns is. -/
def Sound (P : ρ → Prop) (q : ℕ) : Option (Next ρ) → Prop
  | none => False
  | some (.done r) => P r
  | some (.goto q') => q' ≠ q

/-- A walk that never goes back and goes on only inside a buffer ends well if and only if the
iterations at all positions that it comes to are right. -/
theorem walk_iff {P : ρ → Prop} {p : ℕ} (bound : ℕ)
    (hmono : ∀ q q', step q = some (.goto q') → q ≤ q' ∧ q < bound) :
    (∃ n r, walk step n p = some r ∧ P r) ↔ ∀ q, Reaches step p q → Sound P q (step q) := by
  constructor
  · rintro ⟨n, r, hwalk, hP⟩ q hq
    -- the walk from any position that is reached returns the same, with fewer iterations
    have hrest : ∀ {q}, Reaches step p q → ∃ m, walk step m q = some r := by
      intro q hq
      induction hq with
      | refl => exact ⟨n, hwalk⟩
      | tail _ hs ih =>
        obtain ⟨m, hm⟩ := ih
        cases m with
        | zero => cases hm
        | succ m => exact ⟨m, by rwa [walk_goto hs] at hm⟩
    cases hs : step q with
    | none =>
      obtain ⟨m, hm⟩ := hrest hq
      cases m with
      | zero => cases hm
      | succ m => rw [walk, hs] at hm; cases hm
    | some nx =>
      cases nx with
      | done r' =>
        obtain ⟨m, hm⟩ := hrest hq
        have h' : walk step 1 q = some r' := walk_done hs
        exact walk_unique hm h' ▸ hP
      | goto q' =>
        rintro rfl
        -- an iteration that stays where it is never returns
        have hstay : ∀ m, walk step m q' = none := by
          intro m
          induction m with
          | zero => rfl
          | succ m ih => rw [walk_goto hs, ih]
        obtain ⟨m, hm⟩ := hrest hq
        rw [hstay] at hm
        cases hm
  · intro hall
    -- the iterations that are left are bounded by the distance to the end of the buffer
    have hgo : ∀ k q, Reaches step p q → bound - q ≤ k → ∃ n r, walk step n q = some r ∧ P r := by
      intro k
      induction k with
      | zero =>
        intro q hq hk
        have hq' := hall q hq
        cases hs : step q with
        | none => rw [hs] at hq'; exact hq'.elim
        | some nx =>
          rw [hs] at hq'
          cases nx with
          | done r => exact ⟨1, r, walk_done hs, hq'⟩
          | goto q' =>
            obtain ⟨-, hlt⟩ := hmono q q' hs
            omega
      | succ k ih =>
        intro q hq hk
        have hq' := hall q hq
        cases hs : step q with
        | none => rw [hs] at hq'; exact hq'.elim
        | some nx =>
          rw [hs] at hq'
          cases nx with
          | done r => exact ⟨1, r, walk_done hs, hq'⟩
          | goto q' =>
            obtain ⟨hle, hlt⟩ := hmono q q' hs
            have hne : q' ≠ q := hq'
            obtain ⟨n, r, hwalk, hP⟩ := ih q' (hq.tail hs) (by omega)
            exact ⟨n + 1, r, by rwa [walk_goto hs], hP⟩
    exact hgo (bound - p) p .refl (Nat.le_refl _)

end Rtl88x2cu.Walker
