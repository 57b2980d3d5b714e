import Rtl88x2cu.Efuse.Parsers

/-!
# Programming the EFUSE by map

`program_efuse_88xx` appends a package to the log for each block of eight bytes with a word to be
written, and `check_efuse_enough_88xx` has counted the bytes of these packages before
(`halmac/halmac_88xx/halmac_efuse_88xx.c`). A byte of the mask is for two blocks, the high nibble
for the even one. `program_efuse_88xx` takes the nibble by bit 3 of the offset;
`check_efuse_enough_88xx` looks at the bits below, which are never set, and takes the high nibble
for both blocks.
-/

namespace Rtl88x2cu.Efuse.PgEfuse

open Bytes (Byte)
open Parsers (HwCfgInfo halmac8822c)

/-! ## Model -/

/-- `efuse_map` of `struct halmac_pg_efuse_info`, `updated_mask`, and the result of
`super_usb_chk_88xx`. -/
structure PgInfo where
  efuseMap : ℕ → Byte
  updatedMask : ℕ → Byte
  superUsb : Bool

/-- The block is in one of the Super-USB zones. -/
def inZone (offset : ℕ) : Bool :=
  (0x150 ≤ offset ∧ offset ≤ 0x199) ∨ (0x200 ≤ offset ∧ offset ≤ 0x217)

/-- The offsets of the blocks, `for (i = 0; i < efuse_map_size; i = i + 8)`. -/
def offsets (hw : HwCfgInfo) : List ℕ := (List.range ((hw.eepromSize + 7) / 8)).map (8 * ·)

/-- `pre_word_en` in `check_efuse_enough_88xx`. -/
def checkPreWordEn (mask : ℕ → Byte) (i : ℕ) : Byte :=
  if i % 8 > 0 then mask (i / 16) &&& 0x0f else mask (i / 16) >>> 4

/-- What the loop over the words adds to `pg_num`, `n` bytes for each bit that is set. -/
def countWords (preWordEn : Byte) (n : ℕ) : ℕ :=
  [0, 1, 2, 3].foldl (fun pgNum j => if preWordEn.getLsbD j then pgNum + n else pgNum) 0

/-- What `check_efuse_enough_88xx` adds to `pg_num` for the block at `i`. -/
def checkBlock (info : PgInfo) (i : ℕ) : ℕ :=
  let preWordEn := checkPreWordEn info.updatedMask i
  if preWordEn > 0 then
    if info.superUsb && inZone i then countWords preWordEn 4
    else (if i > 0x7f then 2 else 1) + countWords preWordEn 2
  else 0

/-- The status codes of `check_efuse_enough_88xx`. -/
inductive Ret where
  | success
  | efuseNotEnough
  deriving DecidableEq, Repr

/-- `check_efuse_enough_88xx`. -/
def checkEfuseEnough (hw : HwCfgInfo) (info : PgInfo) (efuseEnd : ℕ) : Ret :=
  if hw.efuseSize ≤ ((offsets hw).map (checkBlock info)).sum + hw.prtctEfuseSize + efuseEnd then
    .efuseNotEnough
  else .success

/-- A call of `write_hw_efuse_88xx`: the address and the byte. -/
abbrev Write := ℕ × Byte

/-- The two bytes of word `i` of a block, written at `efuseEnd`. -/
def writeWord (efuseMap : ℕ → Byte) (offset efuseEnd i : ℕ) : List Write :=
  [(efuseEnd, efuseMap (offset + 2 * i)), (efuseEnd + 1, efuseMap (offset + 2 * i + 1))]

/-- The loop over the words of a block, which `proc_pg_efuse_88xx` and `pg_extend_efuse_88xx` have
in common. The result is what has been written and where the log ends. -/
def pgWords (efuseMap : ℕ → Byte) (preWordEn : Byte) (offset : ℕ) (s : List Write × ℕ) (i : ℕ) :
    List Write × ℕ :=
  if preWordEn.getLsbD i then (s.1 ++ writeWord efuseMap offset s.2 i, s.2 + 2) else s

/-- `proc_pg_efuse_88xx`, with a header of one byte. -/
def procPgEfuse (efuseMap : ℕ → Byte) (wordEn preWordEn : Byte) (offset efuseEnd : ℕ) :
    List Write × ℕ :=
  let blk := BitVec.ofNat 8 (offset / 8)
  let hdr := (blk <<< 4) + wordEn
  [0, 1, 2, 3].foldl (pgWords efuseMap preWordEn offset) ([(efuseEnd, hdr)], efuseEnd + 1)

/-- `pg_extend_efuse_88xx`, with a header of two bytes. -/
def pgExtendEfuse (efuseMap : ℕ → Byte) (wordEn preWordEn : Byte) (offset efuseEnd : ℕ) :
    List Write × ℕ :=
  let blk := BitVec.ofNat 8 (offset / 8)
  let hdr := (((blk &&& 0x07) <<< 5) &&& 0xe0) ||| 0x0f
  let hdr2 := ((blk &&& 0x78) <<< 1) + wordEn
  [0, 1, 2, 3].foldl (pgWords efuseMap preWordEn offset)
    ([(efuseEnd, hdr), (efuseEnd + 1, hdr2)], efuseEnd + 2)

/-- A turn of the loop of `pg_super_usb_efuse_88xx`: each word gets a package of its own. -/
def pgSuperUsbWord (efuseMap : ℕ → Byte) (preWordEn : Byte) (offset : ℕ) (s : List Write × ℕ)
    (i : ℕ) : List Write × ℕ :=
  let blk := BitVec.ofNat 8 (offset / 8)
  let hdr := (((blk &&& 0x07) <<< 5) &&& 0xe0) ||| 0x0f
  if preWordEn.getLsbD i then
    let hdr2 := ((blk &&& 0x78) <<< 1) + ((preWordEn &&& (1#8 <<< i)) ^^^ 0x0f)
    (s.1 ++ [(s.2, hdr), (s.2 + 1, hdr2)] ++ writeWord efuseMap offset (s.2 + 2) i, s.2 + 4)
  else s

/-- `pg_super_usb_efuse_88xx`. -/
def pgSuperUsbEfuse (efuseMap : ℕ → Byte) (preWordEn : Byte) (offset efuseEnd : ℕ) :
    List Write × ℕ :=
  [0, 1, 2, 3].foldl (pgSuperUsbWord efuseMap preWordEn offset) ([], efuseEnd)

/-- `pre_word_en` in `program_efuse_88xx`. -/
def programPreWordEn (mask : ℕ → Byte) (i : ℕ) : Byte :=
  if i / 8 % 2 > 0 then mask (i / 16) &&& 0x0f else mask (i / 16) >>> 4

/-- What `program_efuse_88xx` writes for the block at `i`. -/
def programBlock (info : PgInfo) (i efuseEnd : ℕ) : List Write × ℕ :=
  let preWordEn := programPreWordEn info.updatedMask i
  let wordEn := preWordEn ^^^ 0x0f
  if preWordEn > 0 then
    if info.superUsb && inZone i then pgSuperUsbEfuse info.efuseMap preWordEn i efuseEnd
    else if i > 0x7f then pgExtendEfuse info.efuseMap wordEn preWordEn i efuseEnd
    else procPgEfuse info.efuseMap wordEn preWordEn i efuseEnd
  else ([], efuseEnd)

/-- `program_efuse_88xx`, from `efuse_end`: all its writes, and the end it leaves. -/
def programEfuse (hw : HwCfgInfo) (info : PgInfo) (efuseEnd : ℕ) : List Write × ℕ :=
  (offsets hw).foldl
    (fun s i => (s.1 ++ (programBlock info i s.2).1, (programBlock info i s.2).2)) ([], efuseEnd)

/-- The writes that are made when `ok` says which ones succeed: the one that fails is the last. -/
def performed (ok : Write → Bool) : List Write → List Write
  | [] => []
  | w :: ws => if ok w then w :: performed ok ws else [w]

/-! ## The writes are consecutive -/

/-- The words that are enabled in a nibble. -/
def words (preWordEn : Byte) : ℕ := ([0, 1, 2, 3].filter fun j => preWordEn.getLsbD j).length

/-- `n` writes from `start` on have been made, up to the end that is recorded. -/
structure Appended (start n : ℕ) (s : List Write × ℕ) : Prop where
  addrs : s.1.map Prod.fst = List.range' start n
  efuseEnd : s.2 = start + n

variable {efuseMap : ℕ → Byte} {preWordEn wordEn : Byte} {offset start n : ℕ} {s : List Write × ℕ}

theorem Appended.append (h : Appended start n s) {ws : List Write} {m : ℕ}
    (hws : ws.map Prod.fst = List.range' s.2 m) : Appended start (n + m) (s.1 ++ ws, s.2 + m) := by
  refine ⟨?_, ?_⟩
  · rw [List.map_append, h.addrs, hws, h.efuseEnd]
    exact List.range'_append_1
  · simp only [h.efuseEnd]
    omega

/-- A loop over words that appends `k` writes for each one that is enabled. -/
theorem appended_foldl (preWordEn : Byte) (k : ℕ) {f : List Write × ℕ → ℕ → List Write × ℕ}
    (hset : ∀ n s i, Appended start n s → preWordEn.getLsbD i → Appended start (n + k) (f s i))
    (hclr : ∀ s i, ¬ preWordEn.getLsbD i → f s i = s) (is : List ℕ) (h : Appended start n s) :
    Appended start (n + k * (is.filter fun j => preWordEn.getLsbD j).length) (is.foldl f s) := by
  induction is generalizing n s with
  | nil => exact h
  | cons i is ih =>
    rw [List.foldl_cons]
    by_cases hi : preWordEn.getLsbD i
    · have hnext := ih (hset n s i h hi)
      rw [List.filter_cons_of_pos hi, List.length_cons, Nat.mul_succ, Nat.add_comm (k * _) k,
        ← Nat.add_assoc]
      exact hnext
    · rw [hclr s i hi, List.filter_cons_of_neg hi]
      exact ih h

theorem appended_pgWords (h : Appended start n s) :
    Appended start (n + 2 * words preWordEn)
      ([0, 1, 2, 3].foldl (pgWords efuseMap preWordEn offset) s) := by
  refine appended_foldl preWordEn 2 (fun n s i hs hi => ?_) (fun s i hi => if_neg hi) _ h
  rw [if_pos hi]
  exact hs.append rfl

theorem appended_procPgEfuse :
    Appended start (1 + 2 * words preWordEn)
      (procPgEfuse efuseMap wordEn preWordEn offset start) :=
  appended_pgWords ⟨rfl, rfl⟩

theorem appended_pgExtendEfuse :
    Appended start (2 + 2 * words preWordEn)
      (pgExtendEfuse efuseMap wordEn preWordEn offset start) :=
  appended_pgWords ⟨rfl, rfl⟩

theorem appended_pgSuperUsbEfuse :
    Appended start (4 * words preWordEn)
      (pgSuperUsbEfuse efuseMap preWordEn offset start) := by
  have hnil : Appended start 0 ([], start) := ⟨rfl, rfl⟩
  rw [← Nat.zero_add (4 * words preWordEn)]
  refine appended_foldl preWordEn 4 (fun n s i hs hi => ?_) (fun s i hi => if_neg hi) _ hnil
  rw [if_pos hi, List.append_assoc]
  exact hs.append rfl

/-! ## What is counted and what is written -/

theorem countWords_eq (preWordEn : Byte) (n : ℕ) :
    countWords preWordEn n = n * words preWordEn := by
  have hfoldl : ∀ (is : List ℕ) (m : ℕ),
      is.foldl (fun pgNum j => if preWordEn.getLsbD j then pgNum + n else pgNum) m =
        m + n * (is.filter fun j => preWordEn.getLsbD j).length := by
    intro is
    induction is with
    | nil => exact fun m => rfl
    | cons j is ih =>
      intro m
      rw [List.foldl_cons, ih]
      by_cases hj : preWordEn.getLsbD j
      · rw [if_pos hj, List.filter_cons_of_pos hj, List.length_cons, Nat.mul_succ, Nat.add_assoc,
          Nat.add_comm n]
      · rw [if_neg hj, List.filter_cons_of_neg hj]
  exact (hfoldl _ 0).trans (Nat.zero_add _)

/-- The bytes of the packages for a block at `i` with `w` words. -/
def blockBytes (superUsb : Bool) (i w : ℕ) : ℕ :=
  if superUsb && inZone i then 4 * w else if w = 0 then 0 else (if i > 0x7f then 2 else 1) + 2 * w

/-- A nibble without words is zero. -/
theorem words_eq_zero {b : Byte} (hb : b < 16#8) : words b = 0 ↔ ¬ b > 0 := by
  revert b
  decide

theorem nibble_lt (b : Byte) : b &&& 0x0f < 16#8 ∧ b >>> 4 < 16#8 := by
  constructor
  · rw [BitVec.lt_def, BitVec.toNat_and]
    exact Nat.lt_of_le_of_lt Nat.and_le_right (by decide)
  · rw [BitVec.lt_def, BitVec.toNat_ushiftRight, Nat.shiftRight_eq_div_pow]
    exact Nat.div_lt_of_lt_mul b.isLt

theorem checkBlock_eq (info : PgInfo) (i : ℕ) :
    checkBlock info i =
      blockBytes info.superUsb i (words (checkPreWordEn info.updatedMask i)) := by
  have hlt : checkPreWordEn info.updatedMask i < 16#8 := by
    unfold checkPreWordEn
    split
    · exact (nibble_lt _).1
    · exact (nibble_lt _).2
  have hzero := words_eq_zero hlt
  unfold checkBlock blockBytes
  simp only [countWords_eq]
  by_cases hpos : checkPreWordEn info.updatedMask i > 0
  · have hne : words (checkPreWordEn info.updatedMask i) ≠ 0 := fun h0 => hzero.mp h0 hpos
    rw [if_pos hpos, if_neg hne]
  · rw [if_neg hpos, hzero.mpr hpos, if_pos rfl, Nat.mul_zero, ite_self]

theorem appended_programBlock (info : PgInfo) (i efuseEnd : ℕ) :
    Appended efuseEnd (blockBytes info.superUsb i (words (programPreWordEn info.updatedMask i)))
      (programBlock info i efuseEnd) := by
  have hlt : programPreWordEn info.updatedMask i < 16#8 := by
    unfold programPreWordEn
    split
    · exact (nibble_lt _).1
    · exact (nibble_lt _).2
  have hzero := words_eq_zero hlt
  unfold programBlock blockBytes
  simp only
  by_cases hpos : programPreWordEn info.updatedMask i > 0
  · have hne : words (programPreWordEn info.updatedMask i) ≠ 0 := fun h0 => hzero.mp h0 hpos
    rw [if_pos hpos, if_neg hne]
    split
    · exact appended_pgSuperUsbEfuse
    · split
      · exact appended_pgExtendEfuse
      · exact appended_procPgEfuse
  · rw [if_neg hpos, hzero.mpr hpos, if_pos rfl, Nat.mul_zero, ite_self]
    exact ⟨rfl, rfl⟩

theorem appended_programEfuse (hw : HwCfgInfo) (info : PgInfo) (efuseEnd : ℕ) :
    Appended efuseEnd
      ((offsets hw).map fun i =>
        blockBytes info.superUsb i (words (programPreWordEn info.updatedMask i))).sum
      (programEfuse hw info efuseEnd) := by
  have hfoldl : ∀ (is : List ℕ) {n : ℕ} {s : List Write × ℕ}, Appended efuseEnd n s →
      Appended efuseEnd
        (n + (is.map fun i =>
          blockBytes info.superUsb i (words (programPreWordEn info.updatedMask i))).sum)
        (is.foldl (fun s i =>
          (s.1 ++ (programBlock info i s.2).1, (programBlock info i s.2).2)) s) := by
    intro is
    induction is with
    | nil => exact fun h => h
    | cons i is ih =>
      intro n s h
      have hblock := appended_programBlock info i s.2
      rw [List.foldl_cons, List.map_cons, List.sum_cons, ← Nat.add_assoc, hblock.efuseEnd]
      exact ih (h.append hblock.addrs)
  have hnil : Appended efuseEnd 0 ([], efuseEnd) := ⟨rfl, rfl⟩
  rw [← Nat.zero_add (List.sum _)]
  exact hfoldl _ hnil

/-! ## When the check is right -/

/-- For an odd block, `check_efuse_enough_88xx` still takes the high nibble. -/
theorem checkPreWordEn_eq (mask : ℕ → Byte) (k : ℕ) :
    checkPreWordEn mask (8 * k) = mask (k / 2) >>> 4 := by
  rw [checkPreWordEn, if_neg (by omega), show 8 * k / 16 = k / 2 by omega]

theorem programPreWordEn_eq (mask : ℕ → Byte) (k : ℕ) :
    programPreWordEn mask (8 * k) = if k % 2 = 0 then mask (k / 2) >>> 4 else mask
      (k / 2) &&& 0x0f := by
  rw [programPreWordEn, show 8 * k / 8 = k by omega, show 8 * k / 16 = k / 2 by omega]
  split <;> split <;> first | rfl | omega

theorem performed_subset (ok : Write → Bool) {ws : List Write} {w : Write}
    (h : w ∈ performed ok ws) : w ∈ ws := by
  induction ws with
  | nil => exact h
  | cons v ws ih =>
    unfold performed at h
    split at h
    · rcases List.mem_cons.mp h with rfl | h
      · exact List.mem_cons_self
      · exact List.mem_cons_of_mem _ (ih h)
    · rw [List.mem_singleton.mp h]
      exact List.mem_cons_self

/-- The check counts the words that are programmed, block by block, and if it succeeds then all
writes that are made are between the end of the log and the protected area. -/
def CheckRight (hw : HwCfgInfo) (info : PgInfo) (efuseEnd : ℕ) : Prop :=
  (∀ i ∈ offsets hw, words (checkPreWordEn info.updatedMask i) =
    words (programPreWordEn info.updatedMask i)) ∧
  (checkEfuseEnough hw info efuseEnd = .success →
    ∀ ok, ∀ w ∈ performed ok (programEfuse hw info efuseEnd).1,
      efuseEnd ≤ w.1 ∧ w.1 < hw.efuseSize - hw.prtctEfuseSize)

/-- When the words are counted right, what is written fits. -/
theorem fits_of_words_eq {hw : HwCfgInfo} {info : PgInfo} {efuseEnd : ℕ}
    (hwords : ∀ i ∈ offsets hw, words (checkPreWordEn info.updatedMask i) =
      words (programPreWordEn info.updatedMask i))
    (hcheck : checkEfuseEnough hw info efuseEnd = .success) (ok : Write → Bool) {w : Write}
    (hw' : w ∈ performed ok (programEfuse hw info efuseEnd).1) :
    efuseEnd ≤ w.1 ∧ w.1 < hw.efuseSize - hw.prtctEfuseSize := by
  have hsum : (offsets hw).map (checkBlock info) = (offsets hw).map fun i =>
      blockBytes info.superUsb i (words (programPreWordEn info.updatedMask i)) :=
    List.map_congr_left fun i hi => by rw [checkBlock_eq, hwords i hi]
  have hwrites := appended_programEfuse hw info efuseEnd
  rw [← hsum] at hwrites
  have haddr : w.1 ∈ (programEfuse hw info efuseEnd).1.map Prod.fst :=
    List.mem_map_of_mem (performed_subset ok hw')
  rw [hwrites.addrs, List.mem_range'_1] at haddr
  unfold checkEfuseEnough at hcheck
  split at hcheck
  · exact nomatch hcheck
  · omega

/-- The check is right exactly if every byte of the mask that has an odd block has as many words in
its low nibble as in its high one. -/
theorem checkRight_iff (hw : HwCfgInfo) (info : PgInfo) (efuseEnd : ℕ) :
    CheckRight hw info efuseEnd ↔
      ∀ r, 16 * r + 8 < hw.eepromSize →
        words (info.updatedMask r >>> 4) = words (info.updatedMask r &&& 0x0f) := by
  have hmem : ∀ i, i ∈ offsets hw ↔ ∃ k, 8 * k < hw.eepromSize ∧ 8 * k = i := by
    intro i
    rw [offsets, List.mem_map]
    exact exists_congr fun k => and_congr_left fun _ => by rw [List.mem_range]; omega
  constructor
  · rintro ⟨hwords, -⟩ r hr
    have hodd := hwords (8 * (2 * r + 1)) ((hmem _).mpr ⟨2 * r + 1, by omega, rfl⟩)
    rwa [checkPreWordEn_eq, programPreWordEn_eq, if_neg (by omega),
      show (2 * r + 1) / 2 = r by omega] at hodd
  · intro hrows
    have hwords : ∀ i ∈ offsets hw, words (checkPreWordEn info.updatedMask i) =
        words (programPreWordEn info.updatedMask i) := by
      intro i hi
      obtain ⟨k, hk, rfl⟩ := (hmem i).mp hi
      rw [checkPreWordEn_eq, programPreWordEn_eq]
      split
      · rfl
      · exact hrows (k / 2) (by omega)
    exact ⟨hwords, fun hcheck ok w hw' => fits_of_words_eq hwords hcheck ok hw'⟩

/-- The map is zero, and the words of the odd blocks are to be written. With an erased EFUSE
`super_usb_chk_88xx` finds nothing that speaks against Super-USB. -/
def oddBlocks : PgInfo where
  efuseMap := fun _ => 0x00
  updatedMask := fun _ => 0x0f
  superUsb := true

theorem performed_all (ws : List Write) : performed (fun _ => true) ws = ws := by
  induction ws with
  | nil => rfl
  | cons w ws ih => rw [performed, if_pos rfl, ih]

/-- Nothing is counted for the odd blocks of an erased EFUSE, and they are written over the
protected area, which starts at 388. -/
theorem oddBlocks_overrun :
    checkEfuseEnough halmac8822c oddBlocks 0 = .success ∧
      ∃ w ∈ performed (fun _ => true) (programEfuse halmac8822c oddBlocks 0).1,
        halmac8822c.efuseSize - halmac8822c.prtctEfuseSize ≤ w.1 := by
  refine ⟨by decide +kernel, ?_⟩
  have hwrites := appended_programEfuse halmac8822c oddBlocks 0
  have hmem : 388 ∈ (programEfuse halmac8822c oddBlocks 0).1.map Prod.fst := by
    rw [hwrites.addrs, List.mem_range'_1]
    decide +kernel
  obtain ⟨w, hw, haddr⟩ := List.mem_map.mp hmem
  exact ⟨w, by rwa [performed_all], Nat.le_of_eq haddr.symm⟩

end Rtl88x2cu.Efuse.PgEfuse
