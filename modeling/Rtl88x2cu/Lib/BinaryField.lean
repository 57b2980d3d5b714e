import Mathlib.RingTheory.AdjoinRoot
import Mathlib.Algebra.Polynomial.BigOperators
import Mathlib.Algebra.Field.ZMod
import Mathlib.Tactic.Ring
import Mathlib.Data.ZMod.Basic
import Mathlib.Algebra.Order.Ring.Nat

/-!
# Bit strings as polynomials

A list of bits is a polynomial over the field with two elements, the constant coefficient first.
`eval` takes it to its value at an element of a ring of characteristic two, and `toRing` to its
class modulo a polynomial `f`, where the bit strings as long as the degree of `f` are a system of
representatives (`toRing_injective`).

Multiplication by shifting and adding is multiplication in the ring (`eval_foldl_shiftAdd`), and a
hash that adds the next value and multiplies by `h` is the value of a polynomial at `h`
(`foldl_horner`).
-/

namespace Rtl88x2cu.BinaryField

open Polynomial

/-! ## Values -/

section Eval

variable {R : Type*} [CommRing R] (a : R)

/-- The value at `a`. -/
def eval : List Bool → R
  | [] => 0
  | b :: l => (if b then 1 else 0) + a * eval l

@[simp]
theorem eval_nil : eval a [] = 0 := rfl

theorem eval_cons (b : Bool) (l : List Bool) :
    eval a (b :: l) = (if b then 1 else 0) + a * eval a l := rfl

theorem eval_append (l l' : List Bool) :
    eval a (l ++ l') = eval a l + a ^ l.length * eval a l' := by
  induction l with
  | nil => simp
  | cons b l ih =>
    rw [List.cons_append, eval_cons, ih, eval_cons, List.length_cons]
    ring

theorem eval_replicate_false (n : ℕ) : eval a (List.replicate n false) = 0 := by
  induction n with
  | zero => rfl
  | succ n ih => rw [List.replicate_succ, eval_cons, ih]; simp

/-- Addition is exclusive or. -/
theorem eval_zipWith_xor (hR : ∀ r : R, r + r = 0) {l l' : List Bool}
    (h : l.length = l'.length) :
    eval a (List.zipWith Bool.xor l l') = eval a l + eval a l' := by
  induction l generalizing l' with
  | nil =>
    rw [List.length_nil] at h
    rw [List.eq_nil_of_length_eq_zero h.symm]
    simp
  | cons b l ih =>
    cases l' with
    | nil => simp at h
    | cons b' l' =>
      rw [List.length_cons, List.length_cons, Nat.succ_inj] at h
      rw [List.zipWith_cons_cons, eval_cons, ih h, eval_cons, eval_cons]
      have hbit : (if Bool.xor b b' then (1 : R) else 0) =
          (if b then 1 else 0) + if b' then 1 else 0 := by
        cases b <;> cases b' <;> simp [hR]
      rw [hbit]
      ring

end Eval

/-! ## Multiplication by shifting and adding -/

section ShiftAdd

variable {V R : Type*} [CommRing R]

/-- One step: `v` is added to the sum if the bit is set, and shifted. -/
def shiftAdd (add : V → V → V) (shift : V → V) (p : V × V) (bit : Bool) : V × V :=
  (if bit then add p.1 p.2 else p.1, shift p.2)

/-- Where shifting is multiplication by `a`, the sum is a multiple of the first value. -/
theorem eval_foldl_shiftAdd {φ : V → R} {a : R} {add : V → V → V} {shift : V → V}
    (hadd : ∀ v w, φ (add v w) = φ v + φ w) (hshift : ∀ v, φ (shift v) = a * φ v)
    (bits : List Bool) (z v : V) :
    φ (bits.foldl (shiftAdd add shift) (z, v)).1 = φ z + eval a bits * φ v := by
  induction bits generalizing z v with
  | nil => simp
  | cons b l ih =>
    rw [List.foldl_cons, shiftAdd, ih, hshift, eval_cons]
    cases b
    · simp only [Bool.false_eq_true, reduceIte]
      ring
    · simp only [reduceIte, hadd]
      ring

/-- Horner's rule. -/
theorem foldl_horner {W : Type*} {φ : V → R} {ψ : W → R} {h : R} {step : V → W → V}
    (hstep : ∀ v w, φ (step v w) = (φ v + ψ w) * h) (ws : List W) (v : V) :
    φ (ws.foldl step v) =
      φ v * h ^ ws.length + (ws.mapIdx fun i w => ψ w * h ^ (ws.length - i)).sum := by
  induction ws generalizing v with
  | nil => simp
  | cons w ws ih =>
    rw [List.foldl_cons, ih, hstep, List.mapIdx_cons, List.sum_cons, List.length_cons]
    simp only [Nat.add_sub_add_right, Nat.sub_zero]
    ring

end ShiftAdd

/-! ## Classes modulo a polynomial -/

section Quotient

variable {f : (ZMod 2)[X]}

theorem add_self (r : AdjoinRoot f) : r + r = 0 := by
  rw [← two_smul (ZMod 2) r, show (2 : ZMod 2) = 0 from rfl, zero_smul]

theorem eq_of_add_eq_zero {r s : AdjoinRoot f} (h : r + s = 0) : r = s := by
  rw [← add_zero r, ← add_self s, ← add_assoc, h, zero_add]

/-- The class of a bit string. -/
noncomputable def toRing (f : (ZMod 2)[X]) (l : List Bool) : AdjoinRoot f :=
  eval (AdjoinRoot.root f) l

/-- The polynomial of a bit string. -/
noncomputable def toPoly (l : List Bool) : (ZMod 2)[X] := eval X l

theorem toRing_eq_mk (l : List Bool) : toRing f l = AdjoinRoot.mk f (toPoly l) := by
  rw [toRing, toPoly]
  induction l with
  | nil => simp
  | cons b l ih =>
    rw [eval_cons, eval_cons, ih, map_add, map_mul, AdjoinRoot.mk_X]
    cases b <;> simp

theorem coeff_toPoly (l : List Bool) (i : ℕ) :
    (toPoly l).coeff i = if l.getD i false then 1 else 0 := by
  rw [toPoly]
  induction l generalizing i with
  | nil => simp
  | cons b l ih =>
    rw [eval_cons, coeff_add]
    cases i with
    | zero => cases b <;> simp
    | succ i =>
      rw [coeff_X_mul, ih]
      cases b <;> simp [coeff_one]

theorem degree_toPoly_lt (l : List Bool) : (toPoly l).degree < l.length := by
  rw [degree_lt_iff_coeff_zero]
  intro i hi
  rw [coeff_toPoly, List.getD_eq_getElem?_getD, List.getElem?_eq_none (by exact_mod_cast hi)]
  rfl

/-- Bit strings as long as the degree represent different classes. -/
theorem toRing_injective (hf : f.Monic) {l l' : List Bool} (hlen : l.length = f.natDegree)
    (hlen' : l'.length = f.natDegree) (h : toRing f l = toRing f l') : l = l' := by
  rw [toRing_eq_mk, toRing_eq_mk, AdjoinRoot.mk_eq_mk] at h
  have hdegree : (toPoly l - toPoly l').degree < f.degree := by
    rw [degree_eq_natDegree hf.ne_zero]
    refine lt_of_le_of_lt (degree_sub_le _ _) (max_lt ?_ ?_)
    · rw [← hlen]
      exact degree_toPoly_lt l
    · rw [← hlen']
      exact degree_toPoly_lt l'
  have hpoly : toPoly l = toPoly l' := sub_eq_zero.mp (eq_zero_of_dvd_of_degree_lt h hdegree)
  apply List.ext_getElem (hlen.trans hlen'.symm)
  intro i hi hi'
  have hcoeff := congrArg (fun p => coeff p i) hpoly
  rw [coeff_toPoly, coeff_toPoly, List.getD_eq_getElem?_getD, List.getD_eq_getElem?_getD,
    List.getElem?_eq_getElem hi, List.getElem?_eq_getElem hi', Option.getD_some,
    Option.getD_some] at hcoeff
  cases hb : l[i] <;> cases hb' : l'[i] <;> simp_all

/-! ### Moduli with a known leading term -/

/-- `xⁿ + g`. -/
noncomputable def modulus (n : ℕ) (g : (ZMod 2)[X]) : (ZMod 2)[X] := X ^ n + g

variable {n : ℕ} {g : (ZMod 2)[X]}

theorem monic_modulus (hg : g.degree < n) : (modulus n g).Monic := monic_X_pow_add hg

theorem natDegree_modulus (hg : g.degree < n) : (modulus n g).natDegree = n := by
  rw [modulus, natDegree_eq_of_degree_eq_some]
  rw [degree_add_eq_left_of_degree_lt, degree_X_pow]
  rwa [degree_X_pow]

/-- In the quotient `xⁿ` is `g`. -/
theorem root_pow_modulus :
    AdjoinRoot.root (modulus n g) ^ n = AdjoinRoot.mk (modulus n g) g := by
  apply eq_of_add_eq_zero
  rw [← AdjoinRoot.mk_X, ← map_pow, ← map_add]
  exact AdjoinRoot.mk_self

end Quotient

end Rtl88x2cu.BinaryField
