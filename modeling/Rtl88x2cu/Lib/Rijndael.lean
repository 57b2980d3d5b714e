import Rtl88x2cu.Lib.BlockMode
import Mathlib.Data.Fin.Basic

/-!
# The block cipher Rijndael

The cipher in the terms of its definition: bytes are elements of the field with 256 elements, given
by polynomials modulo `x⁸ + x⁴ + x³ + x + 1`; the substitution is inversion in the field, followed
by an affine map; a state is four columns of four bytes.
-/

namespace Rtl88x2cu.Rijndael

open Bytes

/-! ## The field -/

/-- Multiplication by `x`. -/
def xtime (b : Byte) : Byte := if b.msb then (b <<< 1) ^^^ 0x1b else b <<< 1

/-- The sum of `a x ^ i` for the bits `i` of `b` among the `k` lowest ones. -/
def mulFrom : ℕ → Byte → Byte → Byte
  | 0, _, _ => 0
  | k + 1, a, b => (if b.getLsbD 0 then a else 0) ^^^ mulFrom k (xtime a) (b >>> 1)

def mul (a b : Byte) : Byte := mulFrom 8 a b

def pow (a : Byte) : ℕ → Byte
  | 0 => 1
  | k + 1 => mul (pow a k) a

/-- The inverse, and zero for zero. -/
def inv (a : Byte) : Byte :=
  let a2 := mul a a
  let a4 := mul a2 a2
  let a8 := mul a4 a4
  let a16 := mul a8 a8
  let a32 := mul a16 a16
  let a64 := mul a32 a32
  let a128 := mul a64 a64
  mul a2 (mul a4 (mul a8 (mul a16 (mul a32 (mul a64 a128)))))

/-- The substitution. -/
def sbox (a : Byte) : Byte :=
  let b := inv a
  b ^^^ b.rotateLeft 1 ^^^ b.rotateLeft 2 ^^^ b.rotateLeft 3 ^^^ b.rotateLeft 4 ^^^ 0x63

/-! ## The cipher -/

/-- Four bytes. -/
abbrev Column := Fin 4 → Byte

/-- Four columns. -/
abbrev State := Fin 4 → Column

def subBytes (s : State) : State := fun c r => sbox (s c r)

/-- Row `r` is rotated by `r` columns. -/
def shiftRows (s : State) : State := fun c r => s (c + r) r

def mixColumn (a : Column) : Column := fun r =>
  mul 2 (a r) ^^^ mul 3 (a (r + 1)) ^^^ a (r + 2) ^^^ a (r + 3)

def mixColumns (s : State) : State := fun c => mixColumn (s c)

/-- The round key of round `k` is four words of the key schedule `w`. -/
def addRoundKey (w : ℕ → Column) (k : ℕ) (s : State) : State := fun c r =>
  s c r ^^^ w (4 * k + c) r

/-- The state after `k` rounds. -/
def rounds (w : ℕ → Column) (s : State) : ℕ → State
  | 0 => addRoundKey w 0 s
  | k + 1 => addRoundKey w (k + 1) (mixColumns (shiftRows (subBytes (rounds w s k))))

/-- The cipher with `nr` rounds, the last of which does not mix the columns. -/
def cipher (nr : ℕ) (w : ℕ → Column) (s : State) : State :=
  addRoundKey w nr (shiftRows (subBytes (rounds w s (nr - 1))))

/-! ## The key schedule -/

def rotWord (a : Column) : Column := fun r => a (r + 1)

def subWord (a : Column) : Column := fun r => sbox (a r)

/-- The word that is added for round `i`. -/
def rcon (i : ℕ) : Column := fun r => if r = 0 then pow 2 (i - 1) else 0

/-- The last word, before it is added in word `i` of a key schedule for keys of `nk` words. -/
def temp (nk i : ℕ) (a : Column) : Column :=
  if i % nk = 0 then fun r => subWord (rotWord a) r ^^^ rcon (i / nk) r
  else if 6 < nk ∧ i % nk = 4 then subWord a
  else a

/-- Word `i` of the key schedule for the key `key` of `nk` words. -/
def expand (key : ℕ → Column) (nk i : ℕ) : Column :=
  if i < nk ∨ nk = 0 then key i
  else fun r => expand key nk (i - nk) r ^^^ temp nk i (expand key nk (i - 1)) r
termination_by i
decreasing_by all_goals omega

theorem expand_of_lt (key : ℕ → Column) {nk i : ℕ} (h : i < nk) : expand key nk i = key i := by
  rw [expand, if_pos (Or.inl h)]

theorem expand_add (key : ℕ → Column) {nk : ℕ} (hnk : 0 < nk) (i : ℕ) :
    expand key nk (i + nk) =
      fun r => expand key nk i r ^^^ temp nk (i + nk) (expand key nk (i + nk - 1)) r := by
  rw [expand, if_neg (by omega), Nat.add_sub_cancel]

/-- A word that is not at the start of a group of `nk` words, nor in the middle of a group of
eight. -/
theorem temp_of_ne {nk i : ℕ} (h : i % nk ≠ 0) (h' : ¬(6 < nk ∧ i % nk = 4)) (a : Column) :
    temp nk i a = a := by
  rw [temp, if_neg h, if_neg h']

end Rtl88x2cu.Rijndael
