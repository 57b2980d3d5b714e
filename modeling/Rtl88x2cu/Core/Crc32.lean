import Rtl88x2cu.Core.Tkip

/-!
# CRC-32 by table

`core/rtw_security.c` keeps the table for the CRC in a static variable, which the first call fills.
The table is computed with a register that is shifted to the left, and with all bytes reversed bit
by bit on the way in and out.

`crc32_serial` says that both callers compute the CRC-32 with the polynomial 0x04c11db7, reflected
and bit by bit, whatever has been computed before.
-/

namespace Rtl88x2cu.Core.Crc32

open Bytes
open Tkip (crc32ReverseBit crc32Shift crc32Poly)

/-- `bcrc32initialized` and `crc32_table`. -/
structure Statics where
  bcrc32initialized : Bool
  crc32Table : Vector (BitVec 32) 256

/-- The static variables when the driver is loaded. -/
def Statics.init : Statics := ⟨false, Vector.replicate 256 0⟩

/-- `crc32_init`. Its loop writes every entry of the table. -/
def crc32Init (s : Statics) : Statics :=
  if s.bcrc32initialized then s
  else ⟨true, Vector.ofFn fun i => Tkip.crc32Table (BitVec.ofFin i)⟩

/-- The first test of both functions. -/
def initialized (s : Statics) : Statics := if s.bcrc32initialized then s else crc32Init s

/-- `crc32_table[(crc ^ *p) & 0xff] ^ (crc >> 8)`. -/
def crc32Byte (s : Statics) (crc : BitVec 32) (b : Byte) : BitVec 32 :=
  -- the index is masked with 0xff: it is a byte
  s.crc32Table.get (((crc ^^^ b.setWidth 32) &&& 0xff).setWidth 8).toFin ^^^ (crc >>> 8)

/-- `getcrc32`: the CRC, and the static variables afterwards. -/
def getcrc32 (s : Statics) (buf : List Byte) : BitVec 32 × Statics :=
  let s := initialized s
  let crc := buf.foldl (crc32Byte s) 0xffffffff
  (~~~crc, s)

/-- `rtw_calc_crc32`, a copy of `getcrc32` with another type for the length. -/
def rtwCalcCrc32 (s : Statics) (data : List Byte) : BitVec 32 × Statics :=
  let s := initialized s
  let crc := data.foldl (crc32Byte s) 0xffffffff
  (~~~crc, s)

/-- A call of one of the two functions. -/
inductive Call where
  | getcrc32 (buf : List Byte)
  | rtwCalcCrc32 (data : List Byte)
  deriving DecidableEq, Repr

/-- The static variables after a call. -/
def call (s : Statics) : Call → Statics
  | .getcrc32 buf => (getcrc32 s buf).2
  | .rtwCalcCrc32 data => (rtwCalcCrc32 s data).2

/-- The bit-serial reflected CRC-32: the register starts with ones, the bits of each byte come in
from the lowest one on, and the complement of the register is taken at the end. -/
def crc32Serial (buf : List Byte) : BitVec 32 :=
  ~~~(Crc.bits buf).foldl (Crc.bitStep (0x04c11db7 : BitVec 32).reverse) 0xffffffff

example : crc32Serial [0x31, 0x32, 0x33, 0x34, 0x35, 0x36, 0x37, 0x38, 0x39] = 0xcbf43926 := by
  decide +kernel

/-! ## The table -/

/-- The shifts and masks reverse a byte. -/
theorem crc32ReverseBit_eq (b : Byte) : crc32ReverseBit b = b.reverse := by
  revert b
  decide +kernel

/-- A shift to the left is a shift to the right of the reversed register. -/
theorem crc32Shift_reverse (c : BitVec 32) :
    (crc32Shift c).reverse = Crc.shift crc32Poly.reverse c.reverse := by
  have hshift : (c <<< 1).reverse = c.reverse >>> 1 := by
    apply BitVec.eq_of_getLsbD_eq
    intro i hi
    rw [BitVec.getLsbD_reverse, BitVec.getMsbD_shiftLeft, BitVec.getLsbD_ushiftRight,
      BitVec.getLsbD_reverse, Nat.add_comm]
  have hxor : ((c <<< 1) ^^^ crc32Poly).reverse = (c <<< 1).reverse ^^^ crc32Poly.reverse := by
    apply BitVec.eq_of_getLsbD_eq
    intro i hi
    rw [BitVec.getLsbD_xor, BitVec.getLsbD_reverse, BitVec.getLsbD_reverse, BitVec.getLsbD_reverse,
      BitVec.getMsbD_xor]
  have htop : c &&& 0x80000000 ≠ 0 ↔ c.reverse.getLsbD 0 = true := by
    rw [BitVec.getLsbD_reverse, show (0x80000000 : BitVec 32) = BitVec.twoPow 32 31 from rfl,
      BitVec.and_twoPow]
    by_cases h : c.getLsbD 31 <;> simp [h, BitVec.getMsbD_eq_getLsbD]
  rw [crc32Shift, Crc.shift, ← hshift, ← hxor, apply_ite BitVec.reverse]
  exact if_congr htop rfl rfl

theorem crc32Shift_iterate_reverse (n : ℕ) (c : BitVec 32) :
    (crc32Shift^[n] c).reverse = (Crc.shift crc32Poly.reverse)^[n] c.reverse :=
  Function.Semiconj.iterate_right crc32Shift_reverse n c

/-- The entries are what the indices leave behind when they are moved out of the register. -/
theorem crc32Table_eq (i : Byte) :
    Tkip.crc32Table i = (Crc.shift crc32Poly.reverse)^[8] (i.setWidth 32) := by
  have hbytes (c : BitVec 32) :
      crc32ReverseBit ((c >>> (8 * 0)).setWidth 8) ++ crc32ReverseBit ((c >>> (8 * 1)).setWidth 8) ++
        crc32ReverseBit ((c >>> (8 * 2)).setWidth 8) ++ crc32ReverseBit ((c >>> (8 * 3)).setWidth 8)
        = c.reverse := by
    simp only [crc32ReverseBit_eq]
    apply BitVec.eq_of_getLsbD_eq
    intro i hi
    simp only [BitVec.getLsbD_append, BitVec.getLsbD_reverse, BitVec.getMsbD_eq_getLsbD,
      BitVec.getLsbD_setWidth, BitVec.getLsbD_ushiftRight]
    -- a case for each byte
    split_ifs <;> simp <;> grind
  have hindex : ((crc32ReverseBit i).setWidth 32 <<< 24).reverse = i.setWidth 32 := by
    rw [crc32ReverseBit_eq]
    apply BitVec.eq_of_getLsbD_eq
    intro n hn
    simp [hn]
    grind
  rw [Tkip.crc32Table, hbytes, crc32Shift_iterate_reverse, hindex]

/-! ## The calls -/

/-- The table is as it should be once it is in use. -/
def Statics.Ok (s : Statics) : Prop :=
  s.bcrc32initialized = true → ∀ i, s.crc32Table.get i = Tkip.crc32Table (BitVec.ofFin i)

theorem ok_init : Statics.init.Ok := fun h => nomatch h

theorem Statics.Ok.initialized {s : Statics} (h : s.Ok) : (initialized s).Ok := by
  rw [Crc32.initialized, crc32Init]
  split
  · exact h
  · intro _ i
    exact Vector.getElem_ofFn i.isLt

theorem bcrc32initialized_initialized (s : Statics) : (initialized s).bcrc32initialized = true := by
  rw [initialized, crc32Init]
  split
  · assumption
  · rfl

/-- The loop computes the CRC with a table that is as it should be. -/
theorem foldl_crc32Byte {s : Statics} (h : s.Ok) (hinit : s.bcrc32initialized = true)
    (crc : BitVec 32) (buf : List Byte) :
    buf.foldl (crc32Byte s) crc =
      (Crc.bits buf).foldl (Crc.bitStep (0x04c11db7 : BitVec 32).reverse) crc := by
  have hbyte : crc32Byte s = Crc.step Tkip.crc32Table := by
    funext crc b
    have hmask : ((crc ^^^ b.setWidth 32) &&& 0xff).setWidth 8 =
        (crc ^^^ b.setWidth 32).setWidth 8 := by
      rw [BitVec.setWidth_and]
      exact BitVec.and_allOnes
    rw [crc32Byte, hmask, h hinit]
    rfl
  rw [hbyte]
  exact Crc.foldl_step_eq _ crc32Table_eq crc buf

theorem Statics.Ok.call {s : Statics} (h : s.Ok) (c : Call) : (call s c).Ok := by
  rcases c with _ | _
  all_goals exact h.initialized

theorem ok_run (calls : List Call) : (calls.foldl call Statics.init).Ok :=
  List.foldlRecOn calls call ok_init fun _ h c _ => h.call c

/-- Both functions compute the bit-serial CRC-32, after any calls before. -/
theorem crc32_serial (calls : List Call) (buf : List Byte) :
    (getcrc32 (calls.foldl call Statics.init) buf).1 = crc32Serial buf ∧
      (rtwCalcCrc32 (calls.foldl call Statics.init) buf).1 = crc32Serial buf := by
  have hok := (ok_run calls).initialized
  have hinit := bcrc32initialized_initialized (calls.foldl call Statics.init)
  have hloop := foldl_crc32Byte hok hinit 0xffffffff buf
  constructor
  · rw [getcrc32, crc32Serial, ← hloop]
  · rw [rtwCalcCrc32, crc32Serial, ← hloop]

end Rtl88x2cu.Core.Crc32
