import Mathlib.Algebra.Order.Ring.Nat
import Mathlib.Tactic.Common

/-!
# While loops with a fallible body

`whileLoop cond body n s` runs `while (cond) body` from the state `s` for at most `n`
iterations. It returns `none` when the iterations run out while `cond` still holds, or when
the body itself fails, so `some` certifies that the loop has terminated.

* `whileLoop_total` is the total-correctness rule: an invariant together with a variant that
  every iteration decreases gives termination and the invariant at exit.
* `whileLoop_invariant` is the partial-correctness rule for a loop already known to return.
* `whileLoop_eq_none` is the rule for a loop that does not return.
-/

namespace Rtl88x2cu

variable {σ : Type*}

/-- `while (cond) body`, for at most `n` iterations. -/
def whileLoop (cond : σ → Bool) (body : σ → Option σ) : ℕ → σ → Option σ
  | 0, s => if cond s then none else some s
  | n + 1, s => if cond s then (body s).bind (whileLoop cond body n) else some s

variable {cond : σ → Bool} {body : σ → Option σ}

/-- A loop whose condition is false returns its state unchanged. -/
@[simp]
theorem whileLoop_of_not {s : σ} (n : ℕ) (h : cond s = false) :
    whileLoop cond body n s = some s := by
  cases n <;> simp [whileLoop, h]

/-- One iteration of a loop whose condition holds. -/
theorem whileLoop_succ {s : σ} (n : ℕ) (h : cond s = true) :
    whileLoop cond body (n + 1) s = (body s).bind (whileLoop cond body n) := by
  simp [whileLoop, h]

/-- More iterations do not change what a loop returns. -/
theorem whileLoop_mono {s t : σ} {n m : ℕ} (h : whileLoop cond body n s = some t) (hnm : n ≤ m) :
    whileLoop cond body m s = some t := by
  induction n generalizing s m with
  | zero =>
    cases hc : cond s with
    | false => rwa [whileLoop_of_not 0 hc, ← whileLoop_of_not m hc] at h
    | true => simp [whileLoop, hc] at h
  | succ n ih =>
    cases hc : cond s with
    | false => rwa [whileLoop_of_not _ hc, ← whileLoop_of_not m hc] at h
    | true =>
      obtain ⟨m, rfl⟩ := Nat.exists_eq_add_of_le' (Nat.le_trans (Nat.succ_pos n) hnm)
      rw [whileLoop_succ _ hc] at h ⊢
      obtain ⟨s', hs', ht⟩ := Option.bind_eq_some_iff.mp h
      rw [hs', Option.bind_some]
      exact ih ht (Nat.le_of_succ_le_succ hnm)

/-- What a loop returns does not depend on the number of iterations it is given. -/
theorem whileLoop_unique {s t t' : σ} {n m : ℕ} (h : whileLoop cond body n s = some t)
    (h' : whileLoop cond body m s = some t') : t = t' := by
  have h1 := whileLoop_mono h (Nat.le_max_left n m)
  have h2 := whileLoop_mono h' (Nat.le_max_right n m)
  exact Option.some.inj (h1.symm.trans h2)

/-- Total correctness: if every iteration keeps `inv` and decreases `variant`, a loop that is
given at least `variant s` iterations terminates in a state that satisfies `inv` and falsifies
the condition. -/
theorem whileLoop_total (cond : σ → Bool) (body : σ → Option σ) (inv : σ → Prop)
    (variant : σ → ℕ)
    (hbody : ∀ s, inv s → cond s = true →
      ∃ s', body s = some s' ∧ inv s' ∧ variant s' < variant s) :
    ∀ (n : ℕ) (s : σ), inv s → variant s ≤ n →
      ∃ s', whileLoop cond body n s = some s' ∧ inv s' ∧ cond s' = false := by
  intro n
  induction n with
  | zero =>
    intro s hinv hvar
    cases hc : cond s with
    | false => exact ⟨s, by simp [hc], hinv, hc⟩
    | true =>
      obtain ⟨s', -, -, hlt⟩ := hbody s hinv hc
      omega
  | succ n ih =>
    intro s hinv hvar
    cases hc : cond s with
    | false => exact ⟨s, by simp [hc], hinv, hc⟩
    | true =>
      obtain ⟨s', hs', hinv', hlt⟩ := hbody s hinv hc
      obtain ⟨t, ht, hinvt, hct⟩ := ih s' hinv' (by omega)
      exact ⟨t, by rw [whileLoop_succ n hc, hs']; exact ht, hinvt, hct⟩

/-- Partial correctness: an invariant of the body holds whenever the loop returns, together
with the negated condition. -/
theorem whileLoop_invariant (inv : σ → Prop)
    (hbody : ∀ s s', inv s → cond s = true → body s = some s' → inv s') :
    ∀ (n : ℕ) (s t : σ), inv s → whileLoop cond body n s = some t →
      inv t ∧ cond t = false := by
  intro n
  induction n with
  | zero =>
    intro s t hinv ht
    cases hc : cond s with
    | false =>
      rw [whileLoop_of_not 0 hc, Option.some.injEq] at ht
      exact ht ▸ ⟨hinv, hc⟩
    | true => simp [whileLoop, hc] at ht
  | succ n ih =>
    intro s t hinv ht
    cases hc : cond s with
    | false =>
      rw [whileLoop_of_not _ hc, Option.some.injEq] at ht
      exact ht ▸ ⟨hinv, hc⟩
    | true =>
      rw [whileLoop_succ n hc] at ht
      obtain ⟨s', hs', ht'⟩ := Option.bind_eq_some_iff.mp ht
      exact ih s' t (hbody s s' hinv hc hs') ht'

/-- A loop whose condition the body never falsifies does not return, whatever the number of
iterations. -/
theorem whileLoop_eq_none (inv : σ → Prop)
    (hbody : ∀ s, inv s → cond s = true ∧ ∀ s', body s = some s' → inv s') :
    ∀ (n : ℕ) {s : σ}, inv s → whileLoop cond body n s = none := by
  intro n
  induction n with
  | zero =>
    intro s hinv
    simp [whileLoop, (hbody s hinv).1]
  | succ n ih =>
    intro s hinv
    rw [whileLoop_succ n (hbody s hinv).1, Option.bind_eq_none_iff]
    exact fun s' hs' => ih ((hbody s hinv).2 s' hs')

end Rtl88x2cu
