import Mathlib.Algebra.Order.Ring.Nat
import Mathlib.Data.Finset.Basic
import Mathlib.Data.List.Nodup
import Mathlib.Tactic.Common

/-!
# Resumable worklists

A worklist is worked off from the front. Each visit of an item gets an answer, and the verdict on
it says how the work goes on: with the next item, with the same item once more, or not at all.

* `Follows verdict w vs` says that the visits `vs` are an admissible record of work on `w`.
* `remaining verdict w vs` is what is left of `w` after them.

Work can be interrupted and resumed with the rest: `follows_append` and `remaining_append`. A
worklist that is kept as a set, and listed in a fixed order of all items, is resumed correctly
because `filter_sdiff` gives back the rest of the list.
-/

namespace Rtl88x2cu

/-- How the work goes on after a visit. -/
inductive Verdict where
  | advance
  | retry
  | stop
  deriving DecidableEq, Repr

variable {ι ρ : Type} (verdict : ρ → Verdict)

/-- The visits are a record of work on the list: every visit is to the item at the front, which
is done if the verdict says so and stays at the front to be retried otherwise; nothing follows a
stop. -/
def Follows : List ι → List (ι × ρ) → Prop
  | _, [] => True
  | [], _ :: _ => False
  | x :: w, (y, r) :: vs =>
    y = x ∧ match verdict r with
      | .advance => Follows w vs
      | .retry => Follows (x :: w) vs
      | .stop => vs = []

/-- What is left of the list after the visits. -/
def remaining : List ι → List (ι × ρ) → List ι
  | w, [] => w
  | [], _ :: _ => []
  | x :: w, (_, r) :: vs =>
    match verdict r with
    | .advance => remaining w vs
    | .retry => remaining (x :: w) vs
    | .stop => x :: w

variable {verdict} {w w' : List ι} {vs us : List (ι × ρ)}

@[simp]
theorem follows_nil (w : List ι) : Follows verdict w [] := by
  cases w <;> trivial

@[simp]
theorem remaining_nil (w : List ι) : remaining verdict w [] = w := by
  cases w <;> rfl

/-- Work that was not stopped can be resumed with what is left. -/
theorem follows_append (h : Follows verdict w vs) (hstop : ∀ v ∈ vs, verdict v.2 ≠ .stop)
    (hrest : Follows verdict (remaining verdict w vs) us) : Follows verdict w (vs ++ us) := by
  induction vs generalizing w with
  | nil => simpa using hrest
  | cons v vs ih =>
    obtain ⟨y, r⟩ := v
    rw [List.forall_mem_cons] at hstop
    cases w with
    | nil => exact h.elim
    | cons x w =>
      obtain ⟨rfl, h⟩ := h
      refine ⟨rfl, ?_⟩
      simp only [remaining] at hrest
      cases hr : verdict r with
      | advance =>
        rw [hr] at h hrest
        exact ih h hstop.2 hrest
      | retry =>
        rw [hr] at h hrest
        exact ih h hstop.2 hrest
      | stop => exact absurd hr hstop.1

theorem remaining_append (h : Follows verdict w vs) (hstop : ∀ v ∈ vs, verdict v.2 ≠ .stop) :
    remaining verdict w (vs ++ us) = remaining verdict (remaining verdict w vs) us := by
  induction vs generalizing w with
  | nil => simp
  | cons v vs ih =>
    obtain ⟨y, r⟩ := v
    rw [List.forall_mem_cons] at hstop
    cases w with
    | nil => exact h.elim
    | cons x w =>
      obtain ⟨rfl, h⟩ := h
      simp only [List.cons_append, remaining]
      cases hr : verdict r with
      | advance =>
        rw [hr] at h
        exact ih h hstop.2
      | retry =>
        rw [hr] at h
        exact ih h hstop.2
      | stop => exact absurd hr hstop.1

/-- The items done so far, and then what is left, are the whole list. -/
theorem done_append_remaining (h : Follows verdict w vs) :
    (vs.filter fun v => decide (verdict v.2 = .advance)).map Prod.fst ++ remaining verdict w vs =
      w := by
  induction vs generalizing w with
  | nil => simp
  | cons v vs ih =>
    obtain ⟨y, r⟩ := v
    cases w with
    | nil => exact h.elim
    | cons x w =>
      obtain ⟨rfl, h⟩ := h
      simp only [remaining]
      cases hr : verdict r with
      | advance =>
        rw [hr] at h
        simp [hr, ih h]
      | retry =>
        rw [hr] at h
        simpa [hr] using ih h
      | stop =>
        rw [hr] at h
        obtain rfl := h
        simp [hr]

section Visits

variable (ans : ι → ρ)

/-- Visiting the first items with success leaves the rest. -/
theorem visits_done {l rest : List ι} (h : ∀ x ∈ l, verdict (ans x) = .advance) :
    Follows verdict (l ++ rest) (l.map fun x => (x, ans x)) ∧
      remaining verdict (l ++ rest) (l.map fun x => (x, ans x)) = rest := by
  induction l with
  | nil => simp
  | cons x l ih =>
    rw [List.forall_mem_cons] at h
    have hih := ih h.2
    simp only [List.cons_append, List.map_cons, Follows, remaining, h.1]
    exact ⟨⟨trivial, hih.1⟩, hih.2⟩

/-- A visit to the front of the list. -/
theorem visit_front (x : ι) (w : List ι) : Follows verdict (x :: w) [(x, ans x)] := by
  refine ⟨rfl, ?_⟩
  cases verdict (ans x) <;> simp

/-- Taking the first part of a listed set away from it leaves the rest of the list. -/
theorem filter_sdiff [DecidableEq ι] {order l rest : List ι} {s : Finset ι} (hn : order.Nodup)
    (h : order.filter (fun x => decide (x ∈ s)) = l ++ rest) :
    order.filter (fun x => decide (x ∈ s \ l.toFinset)) = rest := by
  have hnodup : (l ++ rest).Nodup := h ▸ hn.filter _
  have hsplit : order.filter (fun x => decide (x ∈ s \ l.toFinset)) =
      (order.filter fun x => decide (x ∈ s)).filter (fun x => decide (x ∉ l)) := by
    rw [List.filter_filter]
    refine List.filter_congr fun x _ => ?_
    simp [Finset.mem_sdiff, Bool.and_comm]
  rw [hsplit, h, List.filter_append, List.filter_eq_nil_iff.mpr (by simp), List.nil_append,
    List.filter_eq_self]
  intro x hx
  have hdisj := (List.nodup_append.mp hnodup).2.2
  simpa using fun hxl => hdisj x hxl x hx rfl

end Visits

end Rtl88x2cu
