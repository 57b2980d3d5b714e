import Mathlib.Algebra.Order.Ring.Nat
import Mathlib.Logic.Function.Basic
import Rtl88x2cu.Lib.Bytes

/-!
# The packages of the EFUSE

The physical EFUSE is a log of packages. A package has a header of one byte, or of two for the
blocks that do not fit into one, and two bytes for each word of its block of four that the header
enables. `eeprom_parser` (`phl/hal/mac/mac_ac/efuse.c`) and `eeprom_parser_88xx`
(`halmac/halmac_88xx/halmac_efuse_88xx.c`) replay the log into the logical map.
-/

namespace Rtl88x2cu.Efuse

open Bytes (Byte)

/-- The bytes of an EFUSE map. -/
abbrev Map := ℕ → Byte

/-- A map of erased bytes. -/
def erased : Map := fun _ => 0xff

/-- The sizes that the parser is bound by: `efuse_size - prtct_efuse_size`, and the size of the
logical map. -/
structure Sizes where
  phy : ℕ
  log : ℕ
  deriving DecidableEq, Repr

/-- What is read at the place of a header. -/
inductive Hdr where
  /-- The log ends; `efuse_idx` is where it is left. -/
  | last (idx : ℕ)
  /-- A header, with the place after it. -/
  | pkg (blkIdx : ℕ) (wordEn : Byte) (idx : ℕ)
  deriving DecidableEq, Repr

/-- The first part of the loop of `eeprom_parser`. -/
def readHdr (phy : Map) (idx : ℕ) : Hdr :=
  let hdr := phy idx
  if hdr &&& 0x1f = 0x0f then
    let hdr2 := phy (idx + 1)
    -- `efuse_idx` is past the first byte of the header here
    if hdr2 = 0xff then .last (idx + 1)
    else .pkg (((hdr2 &&& 0xf0) >>> 1) ||| ((hdr >>> 5) &&& 0x07)).toNat (hdr2 &&& 0x0f) (idx + 2)
  else if hdr = 0xff then .last idx
  else .pkg ((hdr &&& 0xf0) >>> 4).toNat (hdr &&& 0x0f) (idx + 1)

/-- The inner loop of `eeprom_parser`, over the words `is` of a block. `conv` is the byte written
for a byte read. -/
def readWords (sz : Sizes) (conv : Byte → Byte) (phy : Map) (blkIdx : ℕ) (wordEn : Byte) :
    List ℕ → ℕ × Map → Option (ℕ × Map)
  | [], s => some s
  | i :: is, (idx, log) =>
    -- a word is enabled by a bit that is clear
    if wordEn.getLsbD i then
      readWords sz conv phy blkIdx wordEn is (idx, log)
    else
      let eepromIdx := 8 * blkIdx + 2 * i
      if eepromIdx + 1 > sz.log then none
      else if idx + 1 > sz.phy - 1 then none
      else if idx + 2 > sz.phy then none
      else
        let log := Function.update log eepromIdx (conv (phy idx))
        let log := Function.update log (eepromIdx + 1) (conv (phy (idx + 1)))
        readWords sz conv phy blkIdx wordEn is (idx + 2, log)

/-- The loop of `eeprom_parser`, for at most `fuel` headers. The result is `efuse_end` and the
logical map. -/
def parseLoop (sz : Sizes) (conv : Byte → Byte) (phy : Map) : ℕ → ℕ × Map → Option (ℕ × Map)
  | 0, _ => none
  | fuel + 1, (idx, log) =>
    match readHdr phy idx with
    | .last idx => some (idx, log)
    | .pkg blkIdx wordEn idx =>
      if idx ≥ sz.phy - 1 then none
      else (readWords sz conv phy blkIdx wordEn [0, 1, 2, 3] (idx, log)).bind
        (parseLoop sz conv phy fuel)

/-- A header takes at least one byte, so there are at most `sz.phy` of them before the last. -/
def parse (sz : Sizes) (conv : Byte → Byte) (phy : Map) : Option (ℕ × Map) :=
  parseLoop sz conv phy (sz.phy + 1) (0, erased)

variable {sz : Sizes} {conv : Byte → Byte} {phy : Map}

theorem readHdr_pkg_lt {idx blkIdx idx' : ℕ} {wordEn : Byte}
    (h : readHdr phy idx = .pkg blkIdx wordEn idx') : idx < idx' := by
  unfold readHdr at h
  grind

theorem readWords_le {blkIdx : ℕ} {wordEn : Byte} {is : List ℕ} {s s' : ℕ × Map}
    (h : readWords sz conv phy blkIdx wordEn is s = some s') : s.1 ≤ s'.1 := by
  induction is generalizing s with
  | nil =>
    obtain rfl := Option.some.inj h
    exact Nat.le_refl _
  | cons i is ih =>
    unfold readWords at h
    split at h
    · exact ih h
    · obtain ⟨-, h⟩ := Option.ite_none_left_eq_some.mp h
      obtain ⟨-, h⟩ := Option.ite_none_left_eq_some.mp h
      obtain ⟨-, h⟩ := Option.ite_none_left_eq_some.mp h
      have hle := ih h
      simp only at hle
      omega

/-- More fuel does not change the result, once there is enough for the bytes that are left. -/
theorem parseLoop_fuel {m n : ℕ} {s : ℕ × Map} (hm : sz.phy < s.1 + m) (hn : sz.phy < s.1 + n)
    (hm0 : m ≠ 0) (hn0 : n ≠ 0) :
    parseLoop sz conv phy m s = parseLoop sz conv phy n s := by
  induction m generalizing n s with
  | zero => exact absurd rfl hm0
  | succ m ih =>
    obtain ⟨n, rfl⟩ := Nat.exists_eq_succ_of_ne_zero hn0
    unfold parseLoop
    cases hhdr : readHdr phy s.1 with
    | last idx => rfl
    | pkg blkIdx wordEn idx =>
      have hlt := readHdr_pkg_lt hhdr
      simp only
      split
      · rfl
      · next hidx =>
        cases hwords : readWords sz conv phy blkIdx wordEn [0, 1, 2, 3] (idx, s.2) with
        | none => rfl
        | some s' =>
          -- the header was before the end of the area, so there is fuel left on both sides
          have hle : idx ≤ s'.1 := readWords_le hwords
          exact ih (by omega) (by omega) (by omega) (by omega)

end Rtl88x2cu.Efuse
