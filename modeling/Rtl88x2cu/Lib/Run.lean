import Mathlib.Algebra.Order.Ring.Nat
import Mathlib.Tactic.Common

/-!
# Runs of a step function

A system is given by a step function `step : σ → ε → Option σ` on states `σ` and events `ε`;
`none` means that the event has no defined outcome. `run step s es` is the state after the
events `es`, and `Guarded step ok s es` says that every event of the run meets the condition
`ok`, taken on the state it is applied to.

`run_invariant` is the induction every safety theorem of the development goes through: what
one guarded step establishes, every guarded run preserves.
-/

namespace Rtl88x2cu

/-- Rings have ten classes of traffic, and small systems one station. -/
instance neZero_ten : NeZero 10 := ⟨by decide⟩

instance neZero_one : NeZero 1 := ⟨by decide⟩

variable {σ ε : Type*}

/-- The state after the events `es`, applied in order. -/
def run (step : σ → ε → Option σ) : σ → List ε → Option σ
  | s, [] => some s
  | s, e :: es => (step s e).bind fun s' => run step s' es

/-- Every event of the run from `s` meets `ok` on the state it is applied to. -/
def Guarded (step : σ → ε → Option σ) (ok : σ → ε → Prop) : σ → List ε → Prop
  | _, [] => True
  | s, e :: es => ok s e ∧ ∀ s', step s e = some s' → Guarded step ok s' es

variable {step : σ → ε → Option σ} {ok : σ → ε → Prop}

@[simp]
theorem run_nil (s : σ) : run step s [] = some s := rfl

theorem run_cons (s : σ) (e : ε) (es : List ε) :
    run step s (e :: es) = (step s e).bind fun s' => run step s' es := rfl

/-- A run of concatenated events is the run of the second part from the end of the first. -/
theorem run_append (s : σ) (es fs : List ε) :
    run step s (es ++ fs) = (run step s es).bind fun s' => run step s' fs := by
  induction es generalizing s with
  | nil => rfl
  | cons e es ih =>
    rw [List.cons_append, run_cons, run_cons]
    cases step s e with
    | none => rfl
    | some s' => exact ih s'

instance [∀ s e, Decidable (ok s e)] (s : σ) (es : List ε) :
    Decidable (Guarded step ok s es) :=
  match es with
  | [] => isTrue trivial
  | e :: es =>
    match h : step s e with
    | none => decidable_of_iff (ok s e) (by simp [Guarded, h])
    | some s' =>
      haveI : Decidable (Guarded step ok s' es) := instDecidableGuarded s' es
      decidable_of_iff (ok s e ∧ Guarded step ok s' es) (by simp [Guarded, h])

/-- The first part of a guarded run is guarded. -/
theorem Guarded.of_append {s : σ} {es fs : List ε} (h : Guarded step ok s (es ++ fs)) :
    Guarded step ok s es := by
  induction es generalizing s with
  | nil => trivial
  | cons e es ih => exact ⟨h.1, fun s' hs' => ih (h.2 s' hs')⟩

/-- The last event of a guarded run meets the condition. -/
theorem Guarded.last {s s' : σ} {es : List ε} {e : ε} (h : Guarded step ok s (es ++ [e]))
    (hs : run step s es = some s') : ok s' e := by
  induction es generalizing s with
  | nil => exact Option.some.inj hs ▸ h.1
  | cons d es ih =>
    obtain ⟨s₁, hs₁, hs⟩ := Option.bind_eq_some_iff.mp hs
    exact ih (h.2 s₁ hs₁) hs

/-- Conditions on the events alone. -/
theorem guarded_of_forall {ok : ε → Prop} {es : List ε} (h : ∀ e ∈ es, ok e) (s : σ) :
    Guarded step (fun _ e => ok e) s es := by
  induction es generalizing s with
  | nil => trivial
  | cons e es ih =>
    rw [List.forall_mem_cons] at h
    exact ⟨h.1, fun s' _ => ih h.2 s'⟩

/-- What every defined step needs of its event holds of all the events of a run. -/
theorem run_forall {ok : ε → Prop} (hstep : ∀ s e s', step s e = some s' → ok e) {s t : σ}
    {es : List ε} (h : run step s es = some t) : ∀ e ∈ es, ok e := by
  induction es generalizing s with
  | nil => simp
  | cons e es ih =>
    obtain ⟨s', hs', ht⟩ := Option.bind_eq_some_iff.mp h
    rw [List.forall_mem_cons]
    exact ⟨hstep s e s' hs', ih ht⟩

/-- What every step that meets `ok` keeps holds at the end of every guarded run. -/
theorem run_preserves (inv : σ → Prop)
    (hstep : ∀ s e s', inv s → ok s e → step s e = some s' → inv s') {es : List ε} {s t : σ}
    (hinv : inv s) (hok : Guarded step ok s es) (h : run step s es = some t) : inv t := by
  induction es generalizing s with
  | nil => exact Option.some.inj h ▸ hinv
  | cons e es ih =>
    obtain ⟨s', hs', ht⟩ := Option.bind_eq_some_iff.mp h
    exact ih (hstep s e s' hinv hok.1 hs') (hok.2 s' hs') ht

/-- If every step that meets `ok` in a state satisfying `inv` is defined and leads to a state
satisfying `inv`, then so does every guarded run. -/
theorem run_invariant (inv : σ → Prop)
    (hstep : ∀ s e, inv s → ok s e → ∃ s', step s e = some s' ∧ inv s')
    (es : List ε) (s : σ) (hinv : inv s) (hok : Guarded step ok s es) :
    ∃ s', run step s es = some s' ∧ inv s' := by
  induction es generalizing s with
  | nil => exact ⟨s, rfl, hinv⟩
  | cons e es ih =>
    obtain ⟨hoke, hoks⟩ := hok
    obtain ⟨s', hs', hinv'⟩ := hstep s e hinv hoke
    obtain ⟨t, ht, hinvt⟩ := ih s' hinv' (hoks s' hs')
    exact ⟨t, by rw [run_cons, hs']; exact ht, hinvt⟩

/-- If in every state that is not final some step that meets `ok` makes `rank` smaller, a final
state can be reached. -/
theorem exists_run_of_rank (inv : σ → Prop) (rank : σ → ℕ) (final : σ → Prop)
    (hstep : ∀ s, inv s → ¬ final s →
      ∃ e s', step s e = some s' ∧ ok s e ∧ inv s' ∧ rank s' < rank s) (s : σ) (hinv : inv s) :
    ∃ es t, run step s es = some t ∧ Guarded step ok s es ∧ final t := by
  induction hrank : rank s using Nat.strongRecOn generalizing s with
  | _ n ih =>
    by_cases hfinal : final s
    · exact ⟨[], s, rfl, trivial, hfinal⟩
    · obtain ⟨e, s', hs', hok, hinv', hlt⟩ := hstep s hinv hfinal
      obtain ⟨es, t, ht, hoks, hfinal'⟩ := ih (rank s') (hrank ▸ hlt) s' hinv' rfl
      refine ⟨e :: es, t, ?_, ⟨hok, fun s'' hs'' => ?_⟩, hfinal'⟩
      · rw [run_cons, hs']
        exact ht
      · obtain rfl := Option.some.inj (hs'.symm.trans hs'')
        exact hoks

/-- Where a step keeps `inv` exactly when it meets `ok`, `inv` holds throughout a run exactly when
the run is guarded. -/
theorem run_inv_iff_guarded (inv : σ → Prop) (hnone : ∀ s e, step s e = none → ok s e)
    (hstep : ∀ s e s', inv s → step s e = some s' → (inv s' ↔ ok s e)) {s : σ} (es : List ε)
    (hinv : inv s) :
    (∀ pre t, pre <+: es → run step s pre = some t → inv t) ↔ Guarded step ok s es := by
  constructor
  · intro h
    induction es generalizing s with
    | nil => trivial
    | cons e es ih =>
      cases hs : step s e with
      | none => exact ⟨hnone s e hs, fun s' hs' => by rw [hs] at hs'; cases hs'⟩
      | some s' =>
        have hrun (pre : List ε) : run step s (e :: pre) = run step s' pre := by
          rw [run_cons, hs]
          rfl
        have hinv' : inv s' := h [e] s' (by simp) (hrun [])
        refine ⟨(hstep s e s' hinv hs).mp hinv', fun s'' hs'' => ?_⟩
        obtain rfl := Option.some.inj (hs.symm.trans hs'')
        refine ih hinv' fun pre t hpre ht => h (e :: pre) t ?_ ((hrun pre).trans ht)
        exact (List.prefix_cons_inj e).mpr hpre
  · intro hok pre t hpre ht
    have hstart : Guarded step ok s pre := by
      obtain ⟨rest, rfl⟩ := hpre
      exact hok.of_append
    exact run_preserves inv (fun s e s' hs hoke hs' => (hstep s e s' hs hs').mpr hoke) hinv
      hstart ht

end Rtl88x2cu
