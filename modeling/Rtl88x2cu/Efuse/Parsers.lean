import Rtl88x2cu.Efuse.DumpLog

/-!
# The three package parsers

`eeprom_parser_88xx` and `eeprom_mask_parser_88xx` (`halmac/halmac_88xx/halmac_efuse_88xx.c`) and
`eeprom_parser` (`phl/hal/mac/mac_ac/efuse.c`) are written out each on its own. Here the maps are
buffers of the sizes the hardware has, and a parser that reads or writes outside of one has the
outcome `fault`.

The three are instances of one loop with a parameter `put`, what is done with a byte of a word.
Two loops whose `put`s keep a relation of the maps run in lockstep, and a loop whose `put` only
touches what is inside has no fault.
-/

namespace Rtl88x2cu.Efuse.Parsers

open Bytes (Byte)

/-! ## Model -/

/-- The sizes of `struct halmac_hw_cfg_info`. The area that is parsed is neither empty nor the
whole EFUSE, and the logical map is made of words. -/
structure HwCfgInfo where
  efuseSize : ℕ
  eepromSize : ℕ
  prtctEfuseSize : ℕ
  prtct_lt : prtctEfuseSize + 1 < efuseSize
  two_le_prtct : 2 ≤ prtctEfuseSize
  even_eeprom : eepromSize % 2 = 0
  /-- The offsets of the blocks are counted in 16 bits. -/
  eeprom_lt : eepromSize + 8 < 2 ^ 16

/-- The sizes set by `halmac_init_8822c.c`. -/
def halmac8822c : HwCfgInfo := ⟨512, 768, 124, by decide, by decide, by decide, by decide⟩

/-- `prtct_efuse_size` of `eeprom_parser`. -/
def macPrtctEfuseSize : ℕ := 124

/-- `phy_map_size` and `log_map_size` of `bank_efuse_info`. -/
structure BankEfuseInfo where
  phyMapSize : ℕ
  logMapSize : ℕ
  prtct_lt : macPrtctEfuseSize + 1 < phyMapSize
  even_log : logMapSize % 2 = 0

/-- The sizes set by `mac_8822c/init_8822c.c`. -/
def mac8822c : BankEfuseInfo := ⟨1216, 768, by decide, by decide⟩

/-- A map that is written to, with the indices that have been written since it was cleared. -/
structure LogMap where
  bytes : List Byte
  stores : List ℕ
  deriving DecidableEq, Repr

/-- How a parser ends: outside of a map, with the error for a malformed log, or with
`efuse_end`. -/
inductive Exit where
  | fault
  | fail (log : LogMap)
  | success (efuseEnd : ℕ) (log : LogMap)
  deriving DecidableEq, Repr

/-- `*(phy_map + idx)`. -/
def rd (phy : List Byte) (idx : ℕ) : Except Exit Byte :=
  match phy[idx]? with
  | some b => .ok b
  | none => .error .fault

/-- `*(log_map + idx) = b`. -/
def wr (log : LogMap) (idx : ℕ) (b : Byte) : Except Exit LogMap :=
  if idx < log.bytes.length then .ok ⟨log.bytes.set idx b, idx :: log.stores⟩ else .error .fault

/-- `PLTFM_MEMSET(log_map, 0xFF, size)`. -/
def memset (buf : List Byte) (size : ℕ) : Except Exit LogMap :=
  if size ≤ buf.length then .ok ⟨List.replicate size 0xff ++ buf.drop size, []⟩ else .error .fault

/-- The first part of the loop, with the same text in the three parsers: the header at `idx`. -/
def header (phy : List Byte) (idx : ℕ) : Except Exit Hdr := do
  let hdr ← rd phy idx
  if hdr &&& 0x1f = 0x0f then do
    let hdr2 ← rd phy (idx + 1)
    if hdr2 = 0xff then .ok (.last (idx + 1))
    else .ok (.pkg (((hdr2 &&& 0xf0) >>> 1) ||| ((hdr >>> 5) &&& 0x07)).toNat (hdr2 &&& 0x0f)
      (idx + 2))
  else if hdr = 0xff then .ok (.last idx)
  else .ok (.pkg ((hdr &&& 0xf0) >>> 4).toNat (hdr &&& 0x0f) (idx + 1))

/-- `do .. while (1)` for at most `fuel` turns. -/
def doWhile (turn : ℕ × LogMap → Except Exit (ℕ × LogMap)) : ℕ → ℕ × LogMap → Option Exit
  | 0, _ => none
  | fuel + 1, s =>
    match turn s with
    | .error e => some e
    | .ok s => doWhile turn fuel s

/-- Word `i` of a block in `eeprom_parser_88xx`, on `efuse_idx` and the map. A word is there if its
bit of `word_en` is clear. -/
def mapWord88xx (hw : HwCfgInfo) (phy : List Byte) (blkIdx : ℕ) (wordEn : Byte) (s : ℕ × LogMap)
    (i : ℕ) : Except Exit (ℕ × LogMap) :=
  if wordEn.getLsbD i then .ok s
  else
    let eepromIdx := 8 * blkIdx + 2 * i
    if eepromIdx + 1 > hw.eepromSize then .error (.fail s.2)
    else do
      let value8 ← rd phy s.1
      let log ← wr s.2 eepromIdx value8
      if s.1 + 1 > hw.efuseSize - hw.prtctEfuseSize - 1 then .error (.fail log)
      else do
        let value8 ← rd phy (s.1 + 1)
        let log ← wr log (eepromIdx + 1) value8
        if s.1 + 2 > hw.efuseSize - hw.prtctEfuseSize then .error (.fail log)
        else .ok (s.1 + 2, log)

/-- One turn of the loop of `eeprom_parser_88xx`: a package is read, or the parser ends. -/
def mapPackage88xx (hw : HwCfgInfo) (phy : List Byte) (s : ℕ × LogMap) :
    Except Exit (ℕ × LogMap) :=
  match header phy s.1 with
  | .error e => .error e
  | .ok (.last idx) => .error (.success idx s.2)
  | .ok (.pkg blkIdx wordEn idx) =>
    if idx ≥ hw.efuseSize - hw.prtctEfuseSize - 1 then .error (.fail s.2)
    else [0, 1, 2, 3].foldlM (mapWord88xx hw phy blkIdx wordEn) (idx, s.2)

/-- `eeprom_parser_88xx`. -/
def eepromParser88xx (hw : HwCfgInfo) (phy buf : List Byte) (fuel : ℕ) : Option Exit :=
  match memset buf hw.eepromSize with
  | .error e => some e
  | .ok log => doWhile (mapPackage88xx hw phy) fuel (0, log)

/-- Word `i` of a block in `eeprom_mask_parser_88xx`. -/
def maskWord88xx (hw : HwCfgInfo) (blkIdx : ℕ) (wordEn : Byte) (s : ℕ × LogMap)
    (i : ℕ) : Except Exit (ℕ × LogMap) :=
  if wordEn.getLsbD i then .ok s
  else
    let eepromIdx := 8 * blkIdx + 2 * i
    if eepromIdx + 1 > hw.eepromSize then .error (.fail s.2)
    else do
      let log ← wr s.2 eepromIdx 0x00
      if s.1 + 1 > hw.efuseSize - hw.prtctEfuseSize - 1 then .error (.fail log)
      else do
        let log ← wr log (eepromIdx + 1) 0x00
        if s.1 + 2 > hw.efuseSize - hw.prtctEfuseSize then .error (.fail log)
        else .ok (s.1 + 2, log)

/-- One turn of the loop of `eeprom_mask_parser_88xx`. -/
def maskPackage88xx (hw : HwCfgInfo) (phy : List Byte) (s : ℕ × LogMap) :
    Except Exit (ℕ × LogMap) :=
  match header phy s.1 with
  | .error e => .error e
  | .ok (.last idx) => .error (.success idx s.2)
  | .ok (.pkg blkIdx wordEn idx) =>
    if idx ≥ hw.efuseSize - hw.prtctEfuseSize - 1 then .error (.fail s.2)
    else [0, 1, 2, 3].foldlM (maskWord88xx hw blkIdx wordEn) (idx, s.2)

/-- `eeprom_mask_parser_88xx`. -/
def eepromMaskParser88xx (hw : HwCfgInfo) (phy buf : List Byte) (fuel : ℕ) : Option Exit :=
  match memset buf hw.eepromSize with
  | .error e => some e
  | .ok log => doWhile (maskPackage88xx hw phy) fuel (0, log)

/-- What `eeprom_parser` does with the byte at `efuse_idx`, by its `cfg`. -/
def macPut (cfg : ParserCfg) (phy : List Byte) (log : LogMap) (efuseIdx eepromIdx : ℕ) :
    Except Exit LogMap :=
  match cfg with
  | .map => do
    let value8 ← rd phy efuseIdx
    wr log eepromIdx value8
  | .mask => wr log eepromIdx 0x00

/-- Word `i` of a block in `eeprom_parser`. -/
def macWord (bank : BankEfuseInfo) (cfg : ParserCfg) (phy : List Byte) (blkIdx : ℕ)
    (wordEn : Byte) (s : ℕ × LogMap) (i : ℕ) : Except Exit (ℕ × LogMap) :=
  if wordEn.getLsbD i then .ok s
  else
    let eepromIdx := 8 * blkIdx + 2 * i
    if eepromIdx + 1 > bank.logMapSize then .error (.fail s.2)
    else do
      let log ← macPut cfg phy s.2 s.1 eepromIdx
      if s.1 + 1 > bank.phyMapSize - macPrtctEfuseSize - 1 then .error (.fail log)
      else do
        let log ← macPut cfg phy log (s.1 + 1) (eepromIdx + 1)
        if s.1 + 2 > bank.phyMapSize - macPrtctEfuseSize then .error (.fail log)
        else .ok (s.1 + 2, log)

/-- One turn of the loop of `eeprom_parser`. -/
def macPackage (bank : BankEfuseInfo) (cfg : ParserCfg) (phy : List Byte) (s : ℕ × LogMap) :
    Except Exit (ℕ × LogMap) :=
  match header phy s.1 with
  | .error e => .error e
  | .ok (.last idx) => .error (.success idx s.2)
  | .ok (.pkg blkIdx wordEn idx) =>
    if idx ≥ bank.phyMapSize - macPrtctEfuseSize - 1 then .error (.fail s.2)
    else [0, 1, 2, 3].foldlM (macWord bank cfg phy blkIdx wordEn) (idx, s.2)

/-- `eeprom_parser`. -/
def eepromParserMac (bank : BankEfuseInfo) (cfg : ParserCfg) (phy buf : List Byte) (fuel : ℕ) :
    Option Exit :=
  match memset buf bank.logMapSize with
  | .error e => some e
  | .ok log => doWhile (macPackage bank cfg phy) fuel (0, log)

/-! ## One loop for the three -/

/-- What a parser does with the byte at an index of the EFUSE and an index of the map. -/
abbrev Put := LogMap → ℕ → ℕ → Except Exit LogMap

/-- Word `i` of a block, where the area ends at `limit` and the map has `size` bytes. -/
def word (limit size : ℕ) (put : Put) (blkIdx : ℕ) (wordEn : Byte) (s : ℕ × LogMap) (i : ℕ) :
    Except Exit (ℕ × LogMap) :=
  if wordEn.getLsbD i then .ok s
  else
    let eepromIdx := 8 * blkIdx + 2 * i
    if eepromIdx + 1 > size then .error (.fail s.2)
    else do
      let log ← put s.2 s.1 eepromIdx
      if s.1 + 1 > limit - 1 then .error (.fail log)
      else do
        let log ← put log (s.1 + 1) (eepromIdx + 1)
        if s.1 + 2 > limit then .error (.fail log) else .ok (s.1 + 2, log)

/-- One turn of the loop. -/
def package (limit size : ℕ) (put : Put) (phy : List Byte) (s : ℕ × LogMap) :
    Except Exit (ℕ × LogMap) :=
  match header phy s.1 with
  | .error e => .error e
  | .ok (.last idx) => .error (.success idx s.2)
  | .ok (.pkg blkIdx wordEn idx) =>
    if idx ≥ limit - 1 then .error (.fail s.2)
    else [0, 1, 2, 3].foldlM (word limit size put blkIdx wordEn) (idx, s.2)

/-- The byte is copied. -/
def copy (phy : List Byte) : Put := fun log efuseIdx eepromIdx => do
  let value8 ← rd phy efuseIdx
  wr log eepromIdx value8

/-- The byte is marked. -/
def mark : Put := fun log _ eepromIdx => wr log eepromIdx 0x00

section
variable (hw : HwCfgInfo) (bank : BankEfuseInfo) (phy : List Byte)

theorem mapPackage88xx_eq :
    mapPackage88xx hw phy =
      package (hw.efuseSize - hw.prtctEfuseSize) hw.eepromSize (copy phy) phy := by
  have hword : mapWord88xx hw phy =
      word (hw.efuseSize - hw.prtctEfuseSize) hw.eepromSize (copy phy) := by
    funext blkIdx wordEn s i
    simp only [mapWord88xx, word, copy, bind_assoc]
  funext s
  rw [mapPackage88xx, hword]
  rfl

theorem maskPackage88xx_eq :
    maskPackage88xx hw phy =
      package (hw.efuseSize - hw.prtctEfuseSize) hw.eepromSize mark phy := rfl

/-- What `eeprom_parser` does with a byte. -/
theorem macPut_eq (cfg : ParserCfg) :
    macPut cfg phy = match cfg with | .map => copy phy | .mask => mark := by
  cases cfg <;> rfl

theorem macPackage_eq (cfg : ParserCfg) :
    macPackage bank cfg phy =
      package (bank.phyMapSize - macPrtctEfuseSize) bank.logMapSize (macPut cfg phy) phy := rfl

end

/-! ## Two loops in lockstep -/

/-- Both end in the same way, inside of their maps, with related maps. -/
def Exit.Rel (R : LogMap → LogMap → Prop) : Exit → Exit → Prop
  | .fail m, .fail n => R m n
  | .success i m, .success j n => i = j ∧ R m n
  | _, _ => False

/-- Both end in the same way, or go on at the same index, between `lo` and `limit`. -/
def StepRel (R : LogMap → LogMap → Prop) (lo limit : ℕ) :
    Except Exit (ℕ × LogMap) → Except Exit (ℕ × LogMap) → Prop
  | .ok s, .ok t => s.1 = t.1 ∧ lo ≤ s.1 ∧ s.1 ≤ limit ∧ R s.2 t.2
  | .error e, .error f => e.Rel R f
  | _, _ => False

/-- Inside of the area and of the map, both take related maps to related maps. -/
def Lockstep (R : LogMap → LogMap → Prop) (limit size : ℕ) (put put' : Put) : Prop :=
  ∀ m n, R m n → ∀ efuseIdx ≤ limit, ∀ eepromIdx < size,
    ∃ m' n', put m efuseIdx eepromIdx = .ok m' ∧ put' n efuseIdx eepromIdx = .ok n' ∧ R m' n'

section
variable {R : LogMap → LogMap → Prop} {limit size : ℕ} {put put' : Put} {phy : List Byte}

theorem StepRel.mono {lo lo' : ℕ} (hlo : lo' ≤ lo) {x y : Except Exit (ℕ × LogMap)}
    (h : StepRel R lo limit x y) : StepRel R lo' limit x y := by
  rcases x with e | s <;> rcases y with f | t
  · exact h
  · exact h
  · exact h
  · exact ⟨h.1, Nat.le_trans hlo h.2.1, h.2.2⟩

theorem word_rel (hput : Lockstep R limit size put put') (heven : size % 2 = 0) (blkIdx : ℕ)
    (wordEn : Byte) (i idx : ℕ) (hidx : idx ≤ limit) {m n : LogMap} (hR : R m n) :
    StepRel R idx limit (word limit size put blkIdx wordEn (idx, m) i)
      (word limit size put' blkIdx wordEn (idx, n) i) := by
  unfold word
  split
  · exact ⟨rfl, Nat.le_refl _, hidx, hR⟩
  simp only
  split
  · exact hR
  next hsize =>
    -- the index of a word is even, so its second byte is in the map as well
    obtain ⟨m₁, n₁, hm₁, hn₁, hR₁⟩ := hput m n hR idx hidx (8 * blkIdx + 2 * i) (by omega)
    rw [hm₁, hn₁]
    simp only [bind, Except.bind]
    split
    · exact hR₁
    next hidx₁ =>
      obtain ⟨m₂, n₂, hm₂, hn₂, hR₂⟩ :=
        hput m₁ n₁ hR₁ (idx + 1) (by omega) (8 * blkIdx + 2 * i + 1) (by omega)
      rw [hm₂, hn₂]
      simp only
      split
      · exact hR₂
      · exact ⟨rfl, by simp, by simp only; omega, hR₂⟩

theorem words_rel (hput : Lockstep R limit size put put') (heven : size % 2 = 0) (blkIdx : ℕ)
    (wordEn : Byte) (is : List ℕ) (idx : ℕ) (hidx : idx ≤ limit) {m n : LogMap} (hR : R m n) :
    StepRel R idx limit (is.foldlM (word limit size put blkIdx wordEn) (idx, m))
      (is.foldlM (word limit size put' blkIdx wordEn) (idx, n)) := by
  induction is generalizing idx m n with
  | nil => exact ⟨rfl, Nat.le_refl _, hidx, hR⟩
  | cons i is ih =>
    rw [List.foldlM_cons, List.foldlM_cons]
    have hword := word_rel hput heven blkIdx wordEn i idx hidx hR
    rcases hx : word limit size put blkIdx wordEn (idx, m) i with e | ⟨idx', m'⟩ <;>
      rcases hy : word limit size put' blkIdx wordEn (idx, n) i with f | ⟨idx'', n'⟩ <;>
      rw [hx, hy] at hword
    · exact hword
    · exact hword.elim
    · exact hword.elim
    · obtain ⟨rfl, hlo, hle, hR'⟩ := hword
      exact (ih idx' hle hR').mono hlo

/-- The bytes of a header are in the EFUSE, with two bytes behind the area. -/
theorem header_ok {idx : ℕ} (hidx : idx + 1 < phy.length) :
    ∃ h, header phy idx = .ok h ∧ ∀ blkIdx wordEn idx', h = .pkg blkIdx wordEn idx' →
      idx < idx' := by
  have hrd : rd phy idx = .ok phy[idx] := by
    rw [rd, List.getElem?_eq_getElem (by omega)]
  have hrd₁ : rd phy (idx + 1) = .ok phy[idx + 1] := by
    rw [rd, List.getElem?_eq_getElem hidx]
  unfold header
  rw [hrd, hrd₁]
  simp only [bind, Except.bind]
  -- the index is moved past one byte or past two
  split <;> split <;> exact ⟨_, rfl, by rintro - - - ⟨⟩ <;> omega⟩

theorem package_rel (hput : Lockstep R limit size put put') (heven : size % 2 = 0)
    (hphy : limit + 1 < phy.length) (idx : ℕ) (hidx : idx ≤ limit) {m n : LogMap} (hR : R m n) :
    StepRel R (idx + 1) limit (package limit size put phy (idx, m))
      (package limit size put' phy (idx, n)) := by
  obtain ⟨h, hheader, hlt⟩ := header_ok (show idx + 1 < phy.length by omega)
  unfold package
  simp only [hheader]
  cases h with
  | last idx' => exact ⟨rfl, hR⟩
  | pkg blkIdx wordEn idx' =>
    simp only
    split
    · exact hR
    · have hidx' := hlt blkIdx wordEn idx' rfl
      exact (words_rel hput heven blkIdx wordEn _ idx' (by omega) hR).mono hidx'

/-- Every turn moves on, so the loops end within the area. -/
theorem doWhile_rel (hput : Lockstep R limit size put put') (heven : size % 2 = 0)
    (hphy : limit + 1 < phy.length) (fuel idx : ℕ) (hidx : idx ≤ limit)
    (hfuel : limit < idx + fuel) {m n : LogMap} (hR : R m n) :
    ∃ e f, doWhile (package limit size put phy) fuel (idx, m) = some e ∧
      doWhile (package limit size put' phy) fuel (idx, n) = some f ∧ e.Rel R f := by
  induction fuel generalizing idx m n with
  | zero => omega
  | succ fuel ih =>
    have hstep := package_rel hput heven hphy idx hidx hR
    unfold doWhile
    rcases hx : package limit size put phy (idx, m) with e | ⟨idx', m'⟩ <;>
      rcases hy : package limit size put' phy (idx, n) with f | ⟨idx'', n'⟩ <;>
      rw [hx, hy] at hstep
    · exact ⟨e, f, rfl, rfl, hstep⟩
    · exact hstep.elim
    · exact hstep.elim
    · obtain ⟨rfl, hlo, hle, hR'⟩ := hstep
      exact ih idx' hle (by simp only at hlo; omega) hR'

end

/-- More turns do not change how a loop ends. -/
theorem doWhile_mono {turn : ℕ × LogMap → Except Exit (ℕ × LogMap)} {fuel fuel' : ℕ}
    {s : ℕ × LogMap} {e : Exit} (h : doWhile turn fuel s = some e) (hle : fuel ≤ fuel') :
    doWhile turn fuel' s = some e := by
  induction fuel generalizing fuel' s with
  | zero => exact absurd h (by simp [doWhile])
  | succ fuel ih =>
    obtain ⟨fuel', rfl⟩ := Nat.exists_eq_add_one_of_ne_zero (by omega : fuel' ≠ 0)
    unfold doWhile at h ⊢
    cases hturn : turn s with
    | error f => rwa [hturn] at h
    | ok t =>
      rw [hturn] at h
      exact ih h (by omega)

/-! ## What the parsers write -/

/-- A map that has only been written to inside. -/
structure Inside (size : ℕ) (m : LogMap) : Prop where
  length : m.bytes.length = size
  stores : ∀ i ∈ m.stores, i < size

/-- `n` is the mask of the bytes of `m` that have been written. -/
structure Marks (size : ℕ) (m n : LogMap) : Prop where
  left : Inside size m
  right : Inside size n
  mask : ∀ i < size, n.bytes[i]? = some (if i ∈ m.stores then 0x00 else 0xff)

section
variable {size : ℕ} {phy buf : List Byte}

theorem wr_inside {m : LogMap} (h : Inside size m) {i : ℕ} (hi : i < size) (b : Byte) :
    ∃ m', wr m i b = .ok m' ∧ Inside size m' ∧ m' = ⟨m.bytes.set i b, i :: m.stores⟩ := by
  refine ⟨_, if_pos (by rw [h.length]; exact hi), ⟨?_, ?_⟩, rfl⟩
  · rw [List.length_set, h.length]
  · intro j hj
    rcases List.mem_cons.mp hj with rfl | hj
    · exact hi
    · exact h.stores j hj

theorem memset_inside (hbuf : buf.length = size) :
    memset buf size = .ok ⟨List.replicate size 0xff, []⟩ := by
  rw [memset, if_pos (Nat.le_of_eq hbuf.symm), ← hbuf, List.drop_length, List.append_nil]

theorem inside_replicate : Inside size ⟨List.replicate size 0xff, []⟩ :=
  ⟨List.length_replicate, by simp⟩

theorem copy_lockstep {limit : ℕ} (hphy : limit < phy.length) :
    Lockstep (fun m n => m = n ∧ Inside size m) limit size (copy phy) (copy phy) := by
  rintro m n ⟨rfl, hm⟩ efuseIdx hle eepromIdx hlt
  obtain ⟨m', hwr, hm', -⟩ := wr_inside hm hlt phy[efuseIdx]
  have hcopy : copy phy m efuseIdx eepromIdx = .ok m' := by
    rw [copy, rd, List.getElem?_eq_getElem (by omega)]
    exact hwr
  exact ⟨m', m', hcopy, hcopy, rfl, hm'⟩

theorem mark_lockstep {limit : ℕ} :
    Lockstep (fun m n => m = n ∧ Inside size m) limit size mark mark := by
  rintro m n ⟨rfl, hm⟩ efuseIdx - eepromIdx hlt
  obtain ⟨m', hwr, hm', -⟩ := wr_inside hm hlt 0x00
  exact ⟨m', m', hwr, hwr, rfl, hm'⟩

theorem copy_mark_lockstep {limit : ℕ} (hphy : limit < phy.length) :
    Lockstep (Marks size) limit size (copy phy) mark := by
  rintro m n h efuseIdx hle eepromIdx hlt
  obtain ⟨m', hwr, hm', hset⟩ := wr_inside h.left hlt phy[efuseIdx]
  obtain ⟨n', hwr', hn', hset'⟩ := wr_inside h.right hlt 0x00
  have hcopy : copy phy m efuseIdx eepromIdx = .ok m' := by
    rw [copy, rd, List.getElem?_eq_getElem (by omega)]
    exact hwr
  refine ⟨m', n', hcopy, hwr', hm', hn', fun i hi => ?_⟩
  rw [hset, hset', List.getElem?_set, h.right.length, h.mask i hi]
  by_cases hi' : eepromIdx = i
  · simp [hi', hi]
  · have hmem : i ∈ eepromIdx :: m.stores ↔ i ∈ m.stores := by
      simp [Ne.symm hi']
    simp only [hi', if_false, hmem]

end

/-- A parser ends without an access outside of a map. -/
def Exit.Within (size : ℕ) : Exit → Prop
  | .fault => False
  | .fail m => Inside size m
  | .success _ m => Inside size m

theorem Exit.Rel.within {size : ℕ} {e f : Exit}
    (h : e.Rel (fun m n => m = n ∧ Inside size m) f) : e.Within size := by
  cases e <;> cases f
  case fail.fail => exact h.2
  case success.success => exact h.2.2
  all_goals exact h.elim

/-! ## The parsers -/

section
variable (hw : HwCfgInfo) (bank : BankEfuseInfo) {phy buf maskBuf : List Byte}

theorem eepromParser88xx_eq (hbuf : buf.length = hw.eepromSize) (fuel : ℕ) :
    eepromParser88xx hw phy buf fuel =
      doWhile (package (hw.efuseSize - hw.prtctEfuseSize) hw.eepromSize (copy phy) phy) fuel
        (0, ⟨List.replicate hw.eepromSize 0xff, []⟩) := by
  rw [eepromParser88xx, memset_inside hbuf, mapPackage88xx_eq]

theorem eepromMaskParser88xx_eq (hbuf : buf.length = hw.eepromSize) (fuel : ℕ) :
    eepromMaskParser88xx hw phy buf fuel =
      doWhile (package (hw.efuseSize - hw.prtctEfuseSize) hw.eepromSize mark phy) fuel
        (0, ⟨List.replicate hw.eepromSize 0xff, []⟩) := by
  rw [eepromMaskParser88xx, memset_inside hbuf, maskPackage88xx_eq]

theorem eepromParserMac_eq (cfg : ParserCfg) (hbuf : buf.length = bank.logMapSize) (fuel : ℕ) :
    eepromParserMac bank cfg phy buf fuel =
      doWhile (package (bank.phyMapSize - macPrtctEfuseSize) bank.logMapSize
        (macPut cfg phy) phy) fuel (0, ⟨List.replicate bank.logMapSize 0xff, []⟩) := by
  rw [eepromParserMac, memset_inside hbuf, macPackage_eq]

/-- Both halmac parsers end inside of the maps and in the same way, and the mask is that of the
bytes the map parser has written. -/
theorem halmac_marks (hphy : phy.length = hw.efuseSize) (hbuf : buf.length = hw.eepromSize)
    (hmask : maskBuf.length = hw.eepromSize) :
    ∃ e f, (∀ fuel > hw.efuseSize, eepromParser88xx hw phy buf fuel = some e ∧
        eepromMaskParser88xx hw phy maskBuf fuel = some f) ∧
      e.Rel (Marks hw.eepromSize) f := by
  have hlimit : hw.efuseSize - hw.prtctEfuseSize + 1 < phy.length := by
    have hprtct := hw.prtct_lt
    have htwo := hw.two_le_prtct
    omega
  have hempty : Marks hw.eepromSize ⟨List.replicate hw.eepromSize 0xff, []⟩
      ⟨List.replicate hw.eepromSize 0xff, []⟩ :=
    ⟨inside_replicate, inside_replicate, fun i hi => by
      rw [List.getElem?_replicate, if_pos hi]
      rfl⟩
  obtain ⟨e, f, he, hf, hrel⟩ := doWhile_rel
    (copy_mark_lockstep (Nat.lt_of_succ_lt hlimit)) hw.even_eeprom hlimit (hw.efuseSize + 1) 0
    (Nat.zero_le _) (by omega) hempty
  refine ⟨e, f, fun fuel hfuel => ?_, hrel⟩
  rw [eepromParser88xx_eq hw hbuf, eepromMaskParser88xx_eq hw hmask]
  exact ⟨doWhile_mono he hfuel, doWhile_mono hf hfuel⟩

theorem macPut_lockstep (cfg : ParserCfg) {limit size : ℕ} (hphy : limit < phy.length) :
    Lockstep (fun m n => m = n ∧ Inside size m) limit size (macPut cfg phy) (macPut cfg phy) := by
  rw [macPut_eq]
  cases cfg with
  | map => exact copy_lockstep hphy
  | mask => exact mark_lockstep

theorem mac_within (cfg : ParserCfg) (hphy : phy.length = bank.phyMapSize)
    (hbuf : buf.length = bank.logMapSize) :
    ∃ e, (∀ fuel > bank.phyMapSize, eepromParserMac bank cfg phy buf fuel = some e) ∧
      e.Within bank.logMapSize := by
  have hlimit : bank.phyMapSize - macPrtctEfuseSize + 1 < phy.length := by
    have hprtct := bank.prtct_lt
    have htwo : 2 ≤ macPrtctEfuseSize := by decide
    omega
  obtain ⟨e, f, he, -, hrel⟩ := doWhile_rel
    (macPut_lockstep cfg (Nat.lt_of_succ_lt hlimit)) bank.even_log hlimit (bank.phyMapSize + 1) 0
    (Nat.zero_le _) (by omega) ⟨rfl, inside_replicate⟩
  refine ⟨e, fun fuel hfuel => ?_, hrel.within⟩
  rw [eepromParserMac_eq bank cfg hbuf]
  exact doWhile_mono he hfuel

/-- With the same sizes the parsers for the map are the same. -/
theorem mac_eq_halmac (hphy : bank.phyMapSize = hw.efuseSize)
    (hlog : bank.logMapSize = hw.eepromSize) (hprtct : hw.prtctEfuseSize = macPrtctEfuseSize)
    (hbuf : buf.length = hw.eepromSize) (fuel : ℕ) :
    eepromParserMac bank .map phy buf fuel = eepromParser88xx hw phy buf fuel := by
  rw [eepromParserMac_eq bank .map (hbuf.trans hlog.symm), eepromParser88xx_eq hw hbuf, hphy, hlog,
    hprtct]
  rfl

end

/-- The three parsers terminate, read only inside of the EFUSE and write only inside of the map or
mask. The mask parser ends as the map parser does and marks the bytes it writes, and with the same
sizes the two parsers for the map are the same. -/
theorem parsers_correct (hw : HwCfgInfo) (bank : BankEfuseInfo) (cfg : ParserCfg)
    (phy buf maskBuf phyMac bufMac : List Byte) (hphy : phy.length = hw.efuseSize)
    (hbuf : buf.length = hw.eepromSize) (hmask : maskBuf.length = hw.eepromSize)
    (hphyMac : phyMac.length = bank.phyMapSize) (hbufMac : bufMac.length = bank.logMapSize) :
    (∃ e f, (∀ fuel > hw.efuseSize, eepromParser88xx hw phy buf fuel = some e ∧
        eepromMaskParser88xx hw phy maskBuf fuel = some f) ∧
      e.Rel (Marks hw.eepromSize) f) ∧
    (∃ e, (∀ fuel > bank.phyMapSize, eepromParserMac bank cfg phyMac bufMac fuel = some e) ∧
      e.Within bank.logMapSize) ∧
    (bank.phyMapSize = hw.efuseSize → bank.logMapSize = hw.eepromSize →
      hw.prtctEfuseSize = macPrtctEfuseSize →
      ∀ fuel, eepromParserMac bank .map phy buf fuel = eepromParser88xx hw phy buf fuel) :=
  ⟨halmac_marks hw hphy hbuf hmask, mac_within bank cfg hphyMac hbufMac,
    fun hphys hlogs hprtct fuel => mac_eq_halmac hw bank hphys hlogs hprtct hbuf fuel⟩

/-- The erased EFUSE of the chip. -/
theorem parsers_erased :
    ∃ e, ∀ fuel > 512, eepromParser88xx halmac8822c (List.replicate 512 0xff)
      (List.replicate 768 0x00) fuel = some e :=
  let ⟨e, _, h, _⟩ := (parsers_correct halmac8822c mac8822c .map (List.replicate 512 0xff)
    (List.replicate 768 0x00) (List.replicate 768 0x00) (List.replicate 1216 0xff)
    (List.replicate 768 0x00) List.length_replicate List.length_replicate List.length_replicate
    List.length_replicate List.length_replicate).1
  ⟨e, fun fuel hfuel => (h fuel hfuel).1⟩

end Rtl88x2cu.Efuse.Parsers
