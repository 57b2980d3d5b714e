import Mathlib.Data.Nat.Basic
import Mathlib.Algebra.Order.Ring.Nat
import Mathlib.Tactic.Common

/-!
# Reading through a list of parts

A cursor reads the values of a list of parts one after the other, and goes to the next part when it
has read the last value of one; with the very last value it may be told to stop instead. It never
asks whether a part is empty, so reading from one fails.

`map_fst_reads_eq_some_iff` says when all the values can be read.
-/

namespace Rtl88x2cu

variable {α : Type*}

/-- What is left of the part that is read, and the parts behind it. -/
structure Cursor (α : Type*) where
  cur : List α
  rest : List (List α)
  deriving DecidableEq

/-- No empty part in front of a value. -/
def Gapless : List (List α) → Prop
  | [] => True
  | l :: ls => (l = [] → ls.flatten = []) ∧ Gapless ls

instance decidableGapless [DecidableEq α] : DecidablePred (Gapless (α := α))
  | [] => isTrue trivial
  | l :: ls =>
    have := decidableGapless ls
    inferInstanceAs (Decidable ((l = [] → ls.flatten = []) ∧ Gapless ls))

/-- Without values there is nothing for a gap to be in front of. -/
theorem gapless_of_flatten_eq_nil {ls : List (List α)} (h : ls.flatten = []) : Gapless ls := by
  induction ls with
  | nil => trivial
  | cons l ls ih =>
    rw [List.flatten_cons, List.append_eq_nil_iff] at h
    exact ⟨fun _ => h.2, ih h.2⟩

namespace Cursor

/-- The values that are left. -/
def data (c : Cursor α) : List α := c.cur ++ c.rest.flatten

def Solid (c : Cursor α) : Prop := Gapless (c.cur :: c.rest)

/-- The next value; if the part ends with it, the next part is fetched unless `stop` is set. -/
def read (stop : Bool) (c : Cursor α) : Option (α × Cursor α) :=
  match c.cur with
  | [] => none
  | a :: cur =>
    if cur.isEmpty && !stop then
      match c.rest with
      | [] => none
      | l :: ls => some (a, ⟨l, ls⟩)
    else some (a, ⟨cur, c.rest⟩)

/-- The next `k` values, the last one with `stop`. -/
def reads (stop : Bool) : ℕ → Cursor α → Option (List α × Cursor α)
  | 0, c => some ([], c)
  | k + 1, c => (c.read (stop && k == 0)).bind fun p =>
      (reads stop k p.2).map fun q => (p.1 :: q.1, q.2)

variable {c : Cursor α}

theorem length_of_reads {stop : Bool} {k : ℕ} {p : List α × Cursor α}
    (h : c.reads stop k = some p) : p.1.length = k := by
  induction k generalizing c p with
  | zero =>
    rw [reads, Option.some.injEq] at h
    rw [← h, List.length_nil]
  | succ k ih =>
    rw [reads, Option.bind_eq_some_iff] at h
    obtain ⟨q, -, h⟩ := h
    obtain ⟨r, hr, rfl⟩ := Option.map_eq_some_iff.mp h
    rw [List.length_cons, ih hr]

/-- Reading in two steps. -/
theorem reads_add (stop : Bool) (j : ℕ) {k : ℕ} (hk : 0 < k) (c : Cursor α) :
    c.reads stop (j + k) = (c.reads false j).bind fun p =>
      (p.2.reads stop k).map fun q => (p.1 ++ q.1, q.2) := by
  induction j generalizing c with
  | zero =>
    rw [Nat.zero_add, reads, Option.bind_some]
    simp
  | succ j ih =>
    have hlast : (stop && j + k == 0) = false := by
      rw [beq_eq_false_iff_ne.mpr (by omega), Bool.and_false]
    rw [Nat.succ_add, reads, hlast, reads, Bool.false_and, Option.bind_assoc]
    congr 1
    funext p
    rw [ih, Option.map_bind, Option.bind_map]
    congr 1
    funext q
    rw [Function.comp_apply, Option.map_map]
    rfl

/-- Where values are left, and no gap is in front of them, the next one is read. -/
theorem read_false {a : α} {l : List α} (hdata : c.data = a :: l) (hl : l ≠ []) :
    if c.cur = [] then c.read false = none ∧ ¬ c.Solid
    else ∃ c', c.read false = some (a, c') ∧ c'.data = l ∧ (c'.Solid ↔ c.Solid) := by
  obtain ⟨cur, rest⟩ := c
  cases cur with
  | nil =>
    rw [if_pos rfl]
    refine ⟨rfl, fun h => ?_⟩
    have hrest := h.1 rfl
    rw [data, List.nil_append, hrest] at hdata
    exact absurd hdata.symm (List.cons_ne_nil a l)
  | cons b cur =>
    rw [if_neg (List.cons_ne_nil b cur)]
    rw [data, List.cons_append, List.cons.injEq] at hdata
    obtain ⟨rfl, hdata⟩ := hdata
    have hsolid (ls : List (List α)) : Gapless ((b :: cur) :: ls) ↔ Gapless ls :=
      and_iff_right fun h => absurd h (List.cons_ne_nil b cur)
    cases cur with
    | nil =>
      -- the part is at its end
      cases rest with
      | nil => exact absurd hdata.symm hl
      | cons l' ls => exact ⟨⟨l', ls⟩, rfl, hdata, (hsolid _).symm⟩
    | cons b' cur =>
      refine ⟨⟨b' :: cur, rest⟩, rfl, hdata, ?_⟩
      rw [Solid, Solid, hsolid]
      exact and_iff_right fun h => absurd h (List.cons_ne_nil b' cur)

/-- All the values can be read exactly if there is no gap in front of the last one. -/
theorem map_fst_reads_eq_some_iff (c : Cursor α) {l : List α} :
    (c.reads true c.data.length).map Prod.fst = some l ↔ c.Solid ∧ l = c.data := by
  induction hdata : c.data generalizing c l with
  | nil =>
    have hsolid : c.Solid := by
      apply gapless_of_flatten_eq_nil
      rwa [List.flatten_cons]
    rw [List.length_nil, reads, Option.map_some, Option.some.injEq, eq_comm]
    exact (and_iff_right hsolid).symm
  | cons a as ih =>
    rw [List.length_cons, reads]
    by_cases has : as = []
    · -- the last value
      subst has
      obtain ⟨cur, rest⟩ := c
      cases cur with
      | nil =>
        have hgap : ¬ Solid ⟨[], rest⟩ := by
          intro h
          rw [data, List.nil_append, h.1 rfl] at hdata
          exact absurd hdata.symm (List.cons_ne_nil a [])
        exact iff_of_false (Option.some_ne_none l).symm fun h => hgap h.1
      | cons b cur =>
        rw [data, List.cons_append, List.cons.injEq, List.append_eq_nil_iff] at hdata
        obtain ⟨rfl, rfl, hrest⟩ := hdata
        have hsolid : Solid ⟨[b], rest⟩ := ⟨fun _ => hrest, gapless_of_flatten_eq_nil hrest⟩
        have hread : read (true && ([] : List α).length == 0) ⟨[b], rest⟩ = some (b, ⟨[], rest⟩) :=
          rfl
        rw [hread, Option.bind_some, List.length_nil, reads, Option.map_some, Option.map_some,
          Option.some.injEq, eq_comm]
        exact (and_iff_right hsolid).symm
    · have hlast : (true && as.length == 0) = false := by
        rw [beq_eq_false_iff_ne.mpr (fun h => has (List.eq_nil_of_length_eq_zero h)), Bool.and_false]
      have hread := read_false hdata has
      rw [hlast]
      by_cases hcur : c.cur = []
      · rw [if_pos hcur] at hread
        rw [hread.1]
        exact iff_of_false (Option.some_ne_none l).symm fun h => hread.2 h.1
      · rw [if_neg hcur] at hread
        obtain ⟨c', hread, hdata', hsolid⟩ := hread
        rw [hread, Option.bind_some, Option.map_map, ← hsolid]
        have hrest (l : List α) := ih c' (l := l) hdata'
        constructor
        · intro h
          obtain ⟨q, hq, rfl⟩ := Option.map_eq_some_iff.mp h
          obtain ⟨hs, hq⟩ := (hrest q.1).mp (by rw [hq, Option.map_some])
          exact ⟨hs, congrArg (a :: ·) hq⟩
        · rintro ⟨hs, rfl⟩
          obtain ⟨q, hq, hfst⟩ := Option.map_eq_some_iff.mp ((hrest as).mpr ⟨hs, rfl⟩)
          rw [hq, Option.map_some, Function.comp_apply, hfst]

end Cursor

end Rtl88x2cu
