import Mathlib.Algebra.Order.Ring.Nat
import Mathlib.Data.Nat.ModEq
import Mathlib.Tactic.Linarith
import Rtl88x2cu.Lib.Bytes

/-!
# Checksums in one's complement

The checksum of a part of the memory is the complement of the sum of its 16-bit words, where a carry
out of the highest bit is added again at the lowest: a sum modulo 65535. Hosts that load words in
different orders get sums that differ by a factor (`Endian.sum_modEq`), so they agree on whether a
checksum is right.

`addCompl` is the update of a checksum by a word that is added.
-/

namespace Rtl88x2cu.OnesComplement

open Bytes (Byte)

/-- The order of the bytes of a word in the memory of a host. -/
inductive Endian
  | little
  | big
  deriving DecidableEq, Repr

/-! ## Words -/

namespace Endian

variable (e : Endian)

/-- The word that is loaded from two bytes. -/
def load (a b : Byte) : BitVec 16 :=
  match e with
  | little => b ++ a
  | big => a ++ b

/-- The first byte of a word that is stored. -/
def fst (v : BitVec 16) : Byte :=
  match e with
  | little => v.setWidth 8
  | big => (v >>> 8).setWidth 8

/-- The second byte of a word that is stored. -/
def snd (v : BitVec 16) : Byte :=
  match e with
  | little => (v >>> 8).setWidth 8
  | big => v.setWidth 8

/-- From the order of the host to that of the network, where the high byte comes first. -/
def htons (v : BitVec 16) : BitVec 16 := e.load (big.fst v) (big.snd v)

/-- The factor between the sums of a host and those of the network. -/
def scale : ℕ :=
  match e with
  | little => 256
  | big => 1

variable {e}

theorem toNat_append (a b : Byte) : (a ++ b).toNat = 256 * a.toNat + b.toNat := by
  rw [BitVec.toNat_append, Nat.shiftLeft_eq, Nat.mul_comm, ← Nat.two_pow_add_eq_or_of_lt b.isLt]

theorem toNat_load_big (a b : Byte) : (big.load a b).toNat = 256 * a.toNat + b.toNat :=
  toNat_append a b

theorem toNat_load_little (a b : Byte) : (little.load a b).toNat = 256 * b.toNat + a.toNat :=
  toNat_append b a

@[simp]
theorem load_fst_snd (e : Endian) (v : BitVec 16) : e.load (e.fst v) (e.snd v) = v := by
  cases e <;>
  · apply BitVec.eq_of_toNat_eq
    simp only [load, fst, snd, toNat_append, BitVec.toNat_setWidth, BitVec.toNat_ushiftRight,
      Nat.shiftRight_eq_div_pow]
    omega

@[simp]
theorem fst_load (e : Endian) (a b : Byte) : e.fst (e.load a b) = a := by
  cases e <;>
  · apply BitVec.eq_of_toNat_eq
    simp only [load, fst, toNat_append, BitVec.toNat_setWidth, BitVec.toNat_ushiftRight,
      Nat.shiftRight_eq_div_pow]
    omega

@[simp]
theorem snd_load (e : Endian) (a b : Byte) : e.snd (e.load a b) = b := by
  cases e <;>
  · apply BitVec.eq_of_toNat_eq
    simp only [load, snd, toNat_append, BitVec.toNat_setWidth, BitVec.toNat_ushiftRight,
      Nat.shiftRight_eq_div_pow]
    omega

theorem load_and_load (e : Endian) (a b c d : Byte) :
    e.load a b &&& e.load c d = e.load (a &&& c) (b &&& d) := by
  cases e <;> exact BitVec.and_append

theorem load_or_load (e : Endian) (a b c d : Byte) :
    e.load a b ||| e.load c d = e.load (a ||| c) (b ||| d) := by
  cases e <;> exact BitVec.or_append

theorem load_eq_zero {a b : Byte} : e.load a b = 0 ↔ a = 0 ∧ b = 0 := by
  constructor
  · intro h
    have hzero : e.load 0 0 = 0 := by cases e <;> rfl
    constructor
    · rw [← fst_load e a b, h, ← hzero, fst_load]
    · rw [← snd_load e a b, h, ← hzero, snd_load]
  · rintro ⟨rfl, rfl⟩
    cases e <;> rfl

theorem scale_coprime (e : Endian) : Nat.gcd 65535 e.scale = 1 := by
  cases e <;> decide

/-- A word in the order of the host is one of the network, up to the factor. -/
theorem load_modEq (e : Endian) (a b : Byte) :
    (e.load a b).toNat ≡ e.scale * (big.load a b).toNat [MOD 65535] := by
  cases e with
  | big => rw [scale, Nat.one_mul]
  | little =>
    rw [toNat_load_big, toNat_load_little, scale]
    -- 256 * 256 is one more than the modulus
    have heq : 256 * (256 * a.toNat + b.toNat) = 256 * b.toNat + a.toNat + a.toNat * 65535 := by
      omega
    rw [heq]
    exact (Nat.add_mul_modulus_modEq_iff.mpr rfl).symm

/-! ## Sums -/

/-- The sum of the words of a part of the memory. An odd byte is filled up with a zero. -/
def sum (e : Endian) : List Byte → ℕ
  | [] => 0
  | [a] => (e.load a 0).toNat
  | a :: b :: bs => (e.load a b).toNat + sum e bs

/-- The sum of a host is that of the network, up to the factor. -/
theorem sum_modEq (e : Endian) (bs : List Byte) : e.sum bs ≡ e.scale * big.sum bs [MOD 65535] := by
  induction bs using sum.induct with
  | case1 => exact Nat.ModEq.refl 0
  | case2 a => exact e.load_modEq a 0
  | case3 a b bs ih =>
    rw [sum, sum, Nat.mul_add]
    exact (e.load_modEq a b).add ih

/-- Behind an even number of bytes, the words are the same. -/
theorem sum_append {xs : List Byte} (h : Even xs.length) (e : Endian) (ys : List Byte) :
    e.sum (xs ++ ys) = e.sum xs + e.sum ys := by
  induction xs using sum.induct with
  | case1 => rw [List.nil_append, sum, Nat.zero_add]
  | case2 a => exact absurd h Nat.not_even_one
  | case3 a b bs ih =>
    have hbs : Even bs.length := by
      rw [List.length_cons, List.length_cons, Nat.add_assoc] at h
      exact (Nat.even_add.mp h).mpr even_two
    rw [List.cons_append, List.cons_append, sum, sum, ih hbs, Nat.add_assoc]

/-- The first byte of the memory is the high byte of a word of the network. -/
theorem sum_cons_big (a b : Byte) (bs : List Byte) :
    big.sum (a :: bs) + 256 * b.toNat = big.sum (b :: bs) + 256 * a.toNat := by
  cases bs with
  | nil =>
    rw [sum, sum, toNat_load_big, toNat_load_big]
    omega
  | cons c bs =>
    rw [sum, sum, toNat_load_big, toNat_load_big]
    omega

end Endian

/-! ## Carries -/

/-- `while (sum >> 16) sum = (sum & 0xffff) + (sum >> 16)`. -/
def foldCarry (sum : ℕ) : ℕ :=
  if sum / 65536 = 0 then sum else foldCarry (sum % 65536 + sum / 65536)
termination_by sum

theorem foldCarry_modEq (sum : ℕ) : foldCarry sum ≡ sum [MOD 65535] := by
  induction sum using foldCarry.induct with
  | case1 sum h => rw [foldCarry, if_pos h]
  | case2 sum h ih =>
    rw [foldCarry, if_neg h]
    refine ih.trans ?_
    rw [Nat.ModEq]
    omega

theorem foldCarry_lt (sum : ℕ) : foldCarry sum < 65536 := by
  induction sum using foldCarry.induct with
  | case1 sum h =>
    rw [foldCarry, if_pos h]
    omega
  | case2 sum h ih => rwa [foldCarry, if_neg h]

theorem foldCarry_pos {sum : ℕ} (h : 0 < sum) : 0 < foldCarry sum := by
  induction sum using foldCarry.induct with
  | case1 sum h' => rwa [foldCarry, if_pos h']
  | case2 sum h' ih =>
    rw [foldCarry, if_neg h']
    exact ih (by omega)

/-- A sum of all ones, by which a receiver tells that a checksum is right. -/
theorem foldCarry_eq_ones {sum : ℕ} : foldCarry sum = 65535 ↔ 0 < sum ∧ sum ≡ 0 [MOD 65535] := by
  have hmod := foldCarry_modEq sum
  constructor
  · intro h
    rw [h] at hmod
    refine ⟨Nat.pos_of_ne_zero ?_, hmod.symm⟩
    rintro rfl
    rw [foldCarry, if_pos (Nat.zero_div _)] at h
    cases h
  · rintro ⟨hpos, hzero⟩
    have hlt := foldCarry_lt sum
    have hfold := foldCarry_pos hpos
    rw [Nat.ModEq] at hmod hzero
    omega

/-- The checksum `check`, after the word `v` has been added. -/
def addCompl (check v : BitVec 16) : BitVec 16 :=
  ~~~ BitVec.ofNat 16 (foldCarry ((~~~ check).toNat + v.toNat))

section AddCompl

variable (check v : BitVec 16)

theorem toNat_addCompl :
    (addCompl check v).toNat = 65535 - foldCarry (65535 - check.toNat + v.toNat) := by
  have hlt := foldCarry_lt (65535 - check.toNat + v.toNat)
  rw [addCompl, BitVec.toNat_not, BitVec.toNat_not, BitVec.toNat_ofNat, Nat.mod_eq_of_lt hlt]

/-- What is added to the words is taken from the checksum. -/
theorem addCompl_add_modEq : (addCompl check v).toNat + v.toNat ≡ check.toNat [MOD 65535] := by
  have hlt := foldCarry_lt (65535 - check.toNat + v.toNat)
  have hmod := foldCarry_modEq (65535 - check.toNat + v.toNat)
  have hcheck := check.isLt
  rw [toNat_addCompl]
  rw [Nat.ModEq] at hmod ⊢
  omega

/-- It becomes zero when nothing is left, if something has been added. -/
theorem addCompl_eq_zero (hv : v ≠ 0) : addCompl check v = 0 ↔
    v.toNat ≡ check.toNat [MOD 65535] := by
  have hpos : 0 < 65535 - check.toNat + v.toNat := by
    have hv' : v.toNat ≠ 0 := fun h => hv (BitVec.eq_of_toNat_eq h)
    omega
  have hlt := foldCarry_lt (65535 - check.toNat + v.toNat)
  have hfold := foldCarry_pos hpos
  have hmod := foldCarry_modEq (65535 - check.toNat + v.toNat)
  have hcheck := check.isLt
  rw [← BitVec.toNat_inj, toNat_addCompl, show (0 : BitVec 16).toNat = 0 from rfl]
  rw [Nat.ModEq] at hmod ⊢
  omega

end AddCompl

end Rtl88x2cu.OnesComplement
