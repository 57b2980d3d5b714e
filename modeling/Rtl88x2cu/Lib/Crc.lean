import Mathlib.Algebra.Order.Ring.Nat
import Mathlib.Data.List.Basic
import Mathlib.Logic.Function.Iterate
import Rtl88x2cu.Lib.Bytes

/-!
# Table-driven CRC

A 32-bit CRC register is shifted right by a byte at a time, and a table entry is added for the byte
that falls out. If the top bytes of the table's entries are distinct, a step can be undone, in the
register and in the byte; so a change of a single byte is always detected.

The register can also be shifted bit by bit. `foldl_step_eq` says that a table does the same if its
entry for a byte is what the byte leaves behind in the register.
-/

namespace Rtl88x2cu.Crc

open Bytes

/-- One byte, with the table entry for the low byte of the register. -/
def step (table : Byte → BitVec 32) (crc : BitVec 32) (b : Byte) : BitVec 32 :=
  table ((crc ^^^ b.setWidth 32).setWidth 8) ^^^ (crc >>> 8)

def top (c : BitVec 32) : Byte := (c >>> 24).setWidth 8

/-- A register is determined by its low byte and the rest. -/
theorem eq_of_low_of_shift {c c' : BitVec 32} (hlow : c.setWidth 8 = c'.setWidth 8)
    (hshift : c >>> 8 = c' >>> 8) : c = c' := by
  apply BitVec.eq_of_getLsbD_eq
  intro i _
  obtain hi8 | hi8 := Nat.lt_or_ge i 8
  · have h := congrArg (fun b : Byte => b.getLsbD i) hlow
    simpa [hi8] using h
  · have h := congrArg (fun b : BitVec 32 => b.getLsbD (i - 8)) hshift
    simpa [Nat.add_sub_cancel' hi8] using h

theorem top_xor_shift (t c : BitVec 32) : top (t ^^^ (c >>> 8)) = top t := by
  have hzero : c >>> 8 >>> 24 = 0 := by
    rw [← BitVec.shiftRight_add]
    exact BitVec.ushiftRight_eq_zero (by decide)
  rw [top, BitVec.ushiftRight_xor_distrib, hzero, BitVec.ofNat_eq_ofNat, BitVec.xor_zero, top]

section Table

variable {table : Byte → BitVec 32} (htable : Function.Injective (top ∘ table))

include htable

/-- After a step, the table entry and the rest of the register are known. -/
theorem step_inj {c c' : BitVec 32} {b b' : Byte} (h : step table c b = step table c' b') :
    (c ^^^ b.setWidth 32).setWidth 8 = (c' ^^^ b'.setWidth 32).setWidth 8 ∧
      c >>> 8 = c' >>> 8 := by
  have hidx : (c ^^^ b.setWidth 32).setWidth 8 = (c' ^^^ b'.setWidth 32).setWidth 8 := by
    apply htable
    have htop := congrArg top h
    rwa [step, step, top_xor_shift, top_xor_shift] at htop
  rw [step, step, hidx, BitVec.xor_right_inj] at h
  exact ⟨hidx, h⟩

theorem step_left_injective (b : Byte) : Function.Injective (step table · b) := by
  intro c c' h
  obtain ⟨hlow, hshift⟩ := step_inj htable h
  rw [BitVec.setWidth_xor, BitVec.setWidth_xor, BitVec.xor_left_inj] at hlow
  exact eq_of_low_of_shift hlow hshift

theorem step_right_injective (c : BitVec 32) : Function.Injective (step table c) := by
  intro b b' h
  have hlow := (step_inj htable h).1
  rw [BitVec.setWidth_xor, BitVec.setWidth_xor, BitVec.xor_right_inj] at hlow
  simpa using hlow

theorem foldl_injective (l : List Byte) : Function.Injective (l.foldl (step table) ·) := by
  induction l with
  | nil => exact fun _ _ h => h
  | cons b l ih => exact ih.comp (step_left_injective htable b)

/-- A change of one byte is detected. -/
theorem foldl_modify_ne (c : BitVec 32) {l : List Byte} {i : ℕ} (hi : i < l.length)
    {f : Byte → Byte}
    (hf : ∀ b, f b ≠ b) : (l.modify i f).foldl (step table) c ≠ l.foldl (step table) c := by
  induction l generalizing c i with
  | nil => contradiction
  | cons b l ih =>
    cases i with
    | zero =>
      intro h
      exact hf b (step_right_injective htable c (foldl_injective htable l h))
    | succ i => exact ih _ (Nat.lt_of_succ_lt_succ hi)

end Table

/-! ## Bit by bit -/

section Serial

variable (poly : BitVec 32)

/-- The register moves down by one place. If a one falls out, `poly` is added. -/
def shift (c : BitVec 32) : BitVec 32 :=
  if c.getLsbD 0 then (c >>> 1) ^^^ poly else c >>> 1

/-- One bit of the message. -/
def bitStep (c : BitVec 32) (b : Bool) : BitVec 32 :=
  shift poly (c ^^^ (BitVec.ofBool b).setWidth 32)

/-- The bits of a message, of each byte the lowest one first. -/
def bits (l : List Byte) : List Bool := l.flatMap fun b => (List.range 8).map b.getLsbD

/-- What is added when a bit falls out. -/
theorem shift_eq (c : BitVec 32) :
    shift poly c = (c >>> 1) ^^^ (if c.getLsbD 0 then poly else 0) := by
  rw [shift]
  split
  · rfl
  · exact (BitVec.xor_zero).symm

/-- The moves of the register are linear. -/
theorem shift_xor (c d : BitVec 32) : shift poly (c ^^^ d) = shift poly c ^^^ shift poly d := by
  have hadd : (if (c ^^^ d).getLsbD 0 then poly else 0) =
      (if c.getLsbD 0 then poly else 0) ^^^ (if d.getLsbD 0 then poly else 0) := by
    rw [BitVec.getLsbD_xor]
    rcases c.getLsbD 0 <;> rcases d.getLsbD 0 <;> simp
  rw [shift_eq, shift_eq, shift_eq, hadd, BitVec.ushiftRight_xor_distrib]
  ac_rfl

theorem shift_iterate_xor (n : ℕ) (c d : BitVec 32) :
    (shift poly)^[n] (c ^^^ d) = (shift poly)^[n] c ^^^ (shift poly)^[n] d := by
  induction n generalizing c d with
  | zero => rfl
  | succ n ih =>
    rw [Function.iterate_succ_apply, shift_xor, ih]
    rfl

/-- Nothing is added while zeros fall out. -/
theorem shift_iterate_of_low {n : ℕ} {c : BitVec 32} (h : ∀ i < n, c.getLsbD i = false) :
    (shift poly)^[n] c = c >>> n := by
  induction n with
  | zero => rw [BitVec.ushiftRight_zero]; rfl
  | succ n ih =>
    have hlow : (c >>> n).getLsbD 0 = false := by
      rw [BitVec.getLsbD_ushiftRight]
      exact h n (Nat.lt_succ_self n)
    rw [Function.iterate_succ_apply', ih fun i hi => h i (Nat.lt_succ_of_lt hi), shift, hlow,
      BitVec.shiftRight_add]
    rfl

/-- What the low byte leaves behind when it has fallen out is added to the rest. -/
theorem shift_iterate_eight (c : BitVec 32) :
    (shift poly)^[8] c = (shift poly)^[8] ((c.setWidth 8).setWidth 32) ^^^ (c >>> 8) := by
  have hsplit : c = (c.setWidth 8).setWidth 32 ^^^ ((c >>> 8) <<< 8) := by
    apply BitVec.eq_of_getLsbD_eq
    intro i hi
    by_cases h : i < 8 <;> simp [hi, h]
    rw [Nat.add_sub_cancel' (Nat.not_lt.mp h), BitVec.getLsbD_eq_getElem]
  have hlow : ∀ i < 8, ((c >>> 8) <<< 8).getLsbD i = false := by
    intro i hi
    simp [hi]
  have hhigh : (c >>> 8) <<< 8 >>> 8 = c >>> 8 := by
    apply BitVec.eq_of_getLsbD_eq
    intro i hi
    by_cases h : 8 + i < 32
    · simp [h]
    · simp [h, BitVec.getLsbD_of_ge c (8 + i) (by omega)]
  conv_lhs => rw [hsplit, shift_iterate_xor, shift_iterate_of_low poly hlow, hhigh]

/-- A move undoes a move the other way, if that has lost nothing. -/
theorem shift_shiftLeft {c : BitVec 32} (h : c.getLsbD 31 = false) : shift poly (c <<< 1) = c := by
  rw [shift, if_neg (by simp)]
  apply BitVec.eq_of_getLsbD_eq
  intro i hi
  rcases Nat.lt_or_ge (1 + i) 32 with h31 | h31
  · simp [h31, BitVec.getLsbD_eq_getElem hi]
  · rw [show i = 31 by omega, h]
    simp

/-- The register takes up the bits of a byte one after the other; `n` of them so far. -/
theorem foldl_bitStep (c : BitVec 32) (b : Byte) (n : ℕ) :
    (shift poly)^[n] (c ^^^ b.setWidth 32) =
      ((List.range n).map b.getLsbD).foldl (bitStep poly) c ^^^ (b.setWidth 32 >>> n) := by
  induction n with
  | zero =>
    rw [BitVec.ushiftRight_zero]
    rfl
  | succ n ih =>
    -- the bit that comes next, and the ones above it
    have hsplit : b.setWidth 32 >>> n = (BitVec.ofBool (b.getLsbD n)).setWidth 32 ^^^
        (b.setWidth 32 >>> (n + 1)) <<< 1 := by
      apply BitVec.eq_of_getLsbD_eq
      intro i hi
      rcases i with _ | i
      · have hn : b.getLsbD n = true → n < 32 := fun h =>
          Nat.lt_of_lt_of_le (BitVec.lt_of_getLsbD h) (by decide)
        simpa using hn
      · simp [hi, show n + 1 + i = n + (i + 1) by omega]
    have hrest : (b.setWidth 32 >>> (n + 1)).getLsbD 31 = false := by
      rw [BitVec.getLsbD_ushiftRight]
      simp
    rw [Function.iterate_succ_apply', ih, hsplit, ← BitVec.xor_assoc, shift_xor,
      shift_shiftLeft poly hrest, List.range_succ, List.map_append, List.foldl_append]
    rfl

/-- A table whose entries are what the indices leave behind does eight bits at a time. -/
theorem step_eq {table : Byte → BitVec 32}
    (htable : ∀ i, table i = (shift poly)^[8] (i.setWidth 32)) (c : BitVec 32) (b : Byte) :
    step table c b = ((List.range 8).map b.getLsbD).foldl (bitStep poly) c := by
  have hbyte := foldl_bitStep poly c b 8
  have hzero : b.setWidth 32 >>> 8 = 0 := by
    apply BitVec.eq_of_toNat_eq
    simp
    omega
  rw [shift_iterate_eight, BitVec.ushiftRight_xor_distrib, hzero, BitVec.ofNat_eq_ofNat,
    BitVec.xor_zero, BitVec.xor_zero] at hbyte
  rw [step, htable, hbyte]

theorem foldl_step_eq {table : Byte → BitVec 32}
    (htable : ∀ i, table i = (shift poly)^[8] (i.setWidth 32)) (c : BitVec 32) (l : List Byte) :
    l.foldl (step table) c = (bits l).foldl (bitStep poly) c := by
  induction l generalizing c with
  | nil => rfl
  | cons b l ih =>
    rw [List.foldl_cons, ih, step_eq poly htable, bits, bits, List.flatMap_cons, List.foldl_append]

end Serial

end Rtl88x2cu.Crc
