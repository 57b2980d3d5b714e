import Rtl88x2cu.Ieee80211.Ie

/-!
# The traffic indication map

`rtw_set_tim_ie` (`core/rtw_ap.c`) writes the element that tells the sleeping stations whether
frames are buffered for them, from a bitmap with a bit for each association identifier. Zero octets
at both ends of the bitmap are left out.

`timBit` is how a station reads its bit; `timBit_timBody` says that it reads what is in the bitmap.
-/

namespace Rtl88x2cu.Ap.Tim

open Bytes Tlv Ieee80211

/-! ## Model -/

/-- `rtw_bmp_is_set`. -/
def rtwBmpIsSet (bmp : List Byte) (bmpLen id : ℕ) : Bool :=
  if bmpLen ≤ id / 8 then false else (bmp.getD (id / 8) 0).getLsbD (id % 8)

/-- `rtw_bmp_not_empty`. -/
def rtwBmpNotEmpty (bmp : List Byte) (bmpLen : ℕ) : Bool :=
  (List.range bmpLen).any fun i => bmp.getD i 0 ≠ 0

/-- The loop for the first octet that is not zero. -/
def firstOctet (bmp : List Byte) (bmpLen : ℕ) : ℕ :=
  ((List.range bmpLen).find? fun i => bmp.getD i 0 ≠ 0).getD bmpLen

/-- The loop for the last one, from `i` down to one. -/
def lastOctet (bmp : List Byte) : ℕ → ℕ
  | 0 => 0
  | i + 1 => if bmp.getD (i + 1) 0 ≠ 0 then i + 1 else lastOctet bmp i

/-- `n1` and `bmp_len`: where the octets that are sent begin, and how many there are. -/
def timRange (bmp : List Byte) (bmpLen : ℕ) : ℕ × ℕ :=
  if rtwBmpNotEmpty bmp bmpLen then
    let n1 := firstOctet bmp bmpLen / 2 * 2
    let n2 := lastOctet bmp (bmpLen - 1)
    (n1, n2 - n1 + 1)
  else (0, 1)

/-- What `rtw_set_tim_ie` writes behind the length. -/
def timBody (dtimCnt dtimPeriod : Byte) (bmp : List Byte) (bmpLen : ℕ) : List Byte :=
  let r := timRange bmp bmpLen
  dtimCnt :: dtimPeriod ::
    ((if rtwBmpIsSet bmp bmpLen 0 then 1 else 0) ||| BitVec.ofNat 8 r.1) :: slice bmp r.1 r.2

/-- `WLAN_EID_TIM`, `_TIM_IE_`. -/
def timIeId : Byte := 5

/-- `rtw_set_tim_ie`: what is written, and the `u8` that is returned. -/
def rtwSetTimIe (dtimCnt dtimPeriod : Byte) (bmp : List Byte) (bmpLen : ℕ) : List Byte × ℕ :=
  let len := (timRange bmp bmpLen).2
  (timIeId :: BitVec.ofNat 8 (2 + 1 + len) :: timBody dtimCnt dtimPeriod bmp bmpLen,
    (2 + 2 + 1 + len) % 2 ^ 8)

/-! ## What a station reads -/

/-- The bit of a station, from the body of the element. -/
def timBit (body : List Byte) (aid : ℕ) : Bool :=
  let ctrl := body.getD 2 0
  if aid = 0 then ctrl.getLsbD 0
  else
    let n1 := (ctrl &&& 0xFE).toNat
    if n1 ≤ aid / 8 then (body.getD (3 + (aid / 8 - n1)) 0).getLsbD (aid % 8) else false

/-- The bit in the bitmap. -/
def bmpBit (bmp : List Byte) (aid : ℕ) : Bool := (bmp.getD (aid / 8) 0).getLsbD (aid % 8)

/-! ## The octets that are sent -/

variable {bmp : List Byte} {bmpLen : ℕ}

/-- The first octet that is not zero. -/
theorem firstOctet_spec (h : rtwBmpNotEmpty bmp bmpLen = true) :
    firstOctet bmp bmpLen < bmpLen ∧ bmp.getD (firstOctet bmp bmpLen) 0 ≠ 0 ∧
      ∀ i < firstOctet bmp bmpLen, bmp.getD i 0 = 0 := by
  rw [rtwBmpNotEmpty, List.any_eq_true, ← List.find?_isSome, Option.isSome_iff_exists] at h
  obtain ⟨f, hf⟩ := h
  rw [firstOctet, hf, Option.getD_some]
  rw [List.find?_range_eq_some] at hf
  obtain ⟨hne, hmem, hbefore⟩ := hf
  refine ⟨List.mem_range.mp hmem, of_decide_eq_true hne, fun i hi => ?_⟩
  have hzero := hbefore i hi
  rw [Bool.not_eq_true', decide_eq_false_iff_not, not_not] at hzero
  exact hzero

theorem getD_of_lastOctet_lt {n i : ℕ} (hi : lastOctet bmp n < i) (hin : i ≤ n) :
    bmp.getD i 0 = 0 := by
  induction n with
  | zero => exact absurd hin (by rw [lastOctet] at hi; omega)
  | succ n ih =>
    rw [lastOctet] at hi
    split at hi
    · omega
    · rename_i hzero
      by_cases heq : i = n + 1
      · rw [heq]
        exact not_not.mp hzero
      · exact ih hi (by omega)

/-- An octet that is not zero is not behind the last one. -/
theorem le_lastOctet {n i : ℕ} (hi : bmp.getD i 0 ≠ 0) (hin : i ≤ n) : i ≤ lastOctet bmp n := by
  by_contra h
  exact hi (getD_of_lastOctet_lt (Nat.not_le.mp h) hin)

theorem lastOctet_le (bmp : List Byte) (n : ℕ) : lastOctet bmp n ≤ n := by
  induction n with
  | zero => exact Nat.le_refl 0
  | succ n ih =>
    rw [lastOctet]
    split
    · exact Nat.le_refl _
    · exact Nat.le_succ_of_le ih

/-- The octets that are left out are zero. -/
theorem getD_of_not_mem_timRange (hlen : bmp.length = bmpLen) {i : ℕ}
    (hi : ¬ ((timRange bmp bmpLen).1 ≤ i ∧ i < (timRange bmp bmpLen).1 + (timRange bmp bmpLen).2)) :
    bmp.getD i 0 = 0 := by
  by_cases hend : bmpLen ≤ i
  · rw [List.getD_eq_getElem?_getD, List.getElem?_eq_none (hlen ▸ hend), Option.getD_none]
  · rw [timRange] at hi
    by_cases hne : rtwBmpNotEmpty bmp bmpLen = true
    · rw [if_pos hne] at hi
      obtain ⟨hlt, hfirst, hbefore⟩ := firstOctet_spec hne
      have hle := le_lastOctet hfirst (n := bmpLen - 1) (by omega)
      dsimp only at hi
      by_cases hbeg : i < firstOctet bmp bmpLen
      · exact hbefore i hbeg
      · exact getD_of_lastOctet_lt (n := bmpLen - 1) (by omega) (by omega)
    · rw [rtwBmpNotEmpty, List.any_eq_true] at hne
      by_contra h
      exact hne ⟨i, List.mem_range.mpr (Nat.not_le.mp hend), decide_eq_true h⟩

/-- The range is inside the bitmap, and begins at an even octet. -/
theorem timRange_spec (bmp : List Byte) (hpos : 0 < bmpLen) :
    (timRange bmp bmpLen).1 % 2 = 0 ∧ 0 < (timRange bmp bmpLen).2 ∧
      (timRange bmp bmpLen).1 + (timRange bmp bmpLen).2 ≤ bmpLen := by
  rw [timRange]
  split
  · rename_i hne
    obtain ⟨hlt, hfirst, -⟩ := firstOctet_spec hne
    have hle := le_lastOctet hfirst (n := bmpLen - 1) (by omega)
    have hend := lastOctet_le bmp (bmpLen - 1)
    dsimp only
    omega
  · exact ⟨rfl, Nat.one_pos, hpos⟩

/-! ## Reading -/

/-- The control field: the offset of the octets, and a bit for group-addressed frames. -/
theorem ctrl_spec (bit : Bool) {n1 : ℕ} (heven : n1 % 2 = 0) (hlt : n1 < 256) :
    (((if bit then 1 else 0) ||| BitVec.ofNat 8 n1 : Byte) &&& 0xFE).toNat = n1 ∧
      ((if bit then 1 else 0) ||| BitVec.ofNat 8 n1 : Byte).getLsbD 0 = bit := by
  have hall : ∀ (bit : Bool) (m : Fin 128),
      (((if bit then 1 else 0) ||| BitVec.ofNat 8 (2 * m.val) : Byte) &&& 0xFE).toNat = 2 * m.val ∧
        ((if bit then 1 else 0) ||| BitVec.ofNat 8 (2 * m.val) : Byte).getLsbD 0 = bit := by
    decide +kernel
  have hm : 2 * (n1 / 2) = n1 := by omega
  have h := hall bit ⟨n1 / 2, by omega⟩
  rwa [hm] at h

/-- An octet that is sent. -/
theorem getD_slice {off len i : ℕ} (hi : i < len) :
    (slice bmp off len).getD i 0 = bmp.getD (off + i) 0 := by
  rw [slice, List.getD_eq_getElem?_getD, List.getElem?_take_of_lt hi, List.getElem?_drop,
    ← List.getD_eq_getElem?_getD]

theorem timBit_cons (dtimCnt dtimPeriod ctrl : Byte) (l : List Byte) (aid : ℕ) :
    timBit (dtimCnt :: dtimPeriod :: ctrl :: l) aid =
      if aid = 0 then ctrl.getLsbD 0
      else if (ctrl &&& 0xFE).toNat ≤ aid / 8 then
        (l.getD (aid / 8 - (ctrl &&& 0xFE).toNat) 0).getLsbD (aid % 8)
      else false := by
  have hbody (k : ℕ) : (dtimCnt :: dtimPeriod :: ctrl :: l).getD (3 + k) 0 = l.getD k 0 := by
    rw [Nat.add_comm]
    rfl
  simp only [timBit, hbody]
  rfl

/-- A station reads what is in the bitmap. -/
theorem timBit_timBody (dtimCnt dtimPeriod : Byte) (hlen : bmp.length = bmpLen) (hpos : 0 < bmpLen)
    (hmax : bmpLen ≤ 256) (aid : ℕ) :
    timBit (timBody dtimCnt dtimPeriod bmp bmpLen) aid = bmpBit bmp aid := by
  obtain ⟨heven, hsent, hend⟩ := timRange_spec bmp hpos
  obtain ⟨hoff, hgroup⟩ := ctrl_spec (rtwBmpIsSet bmp bmpLen 0) heven (by omega)
  rw [timBody, timBit_cons, bmpBit]
  by_cases haid : aid = 0
  · rw [if_pos haid, hgroup, rtwBmpIsSet, if_neg (Nat.not_le.mpr hpos), haid]
  · rw [if_neg haid, hoff]
    by_cases hbeg : (timRange bmp bmpLen).1 ≤ aid / 8
    · rw [if_pos hbeg]
      by_cases hin : aid / 8 - (timRange bmp bmpLen).1 < (timRange bmp bmpLen).2
      · rw [getD_slice hin, Nat.add_sub_cancel' hbeg]
      · -- behind the octets that are sent
        have hnone : (slice bmp (timRange bmp bmpLen).1 (timRange bmp bmpLen).2).length ≤
            aid / 8 - (timRange bmp bmpLen).1 := by
          rw [length_slice (by omega)]
          omega
        rw [getD_of_not_mem_timRange hlen (i := aid / 8) (by omega), List.getD_eq_getElem?_getD,
          List.getElem?_eq_none hnone, Option.getD_none]
    · rw [if_neg hbeg, getD_of_not_mem_timRange hlen (i := aid / 8) (by omega)]
      exact BitVec.getLsbD_zero.symm

theorem length_timBody (dtimCnt dtimPeriod : Byte) (hlen : bmp.length = bmpLen)
    (hpos : 0 < bmpLen) :
    (timBody dtimCnt dtimPeriod bmp bmpLen).length = 3 + (timRange bmp bmpLen).2 := by
  obtain ⟨-, -, hend⟩ := timRange_spec bmp hpos
  have hslice := length_slice (Nat.le_trans hend (Nat.le_of_eq hlen.symm))
  rw [timBody]
  simp only [List.length_cons, hslice]
  omega

/-- What is written is an element, and its length is returned. -/
theorem rtwSetTimIe_eq (dtimCnt dtimPeriod : Byte) (hlen : bmp.length = bmpLen) (hpos : 0 < bmpLen)
    (hmax : bmpLen ≤ 250) :
    rtwSetTimIe dtimCnt dtimPeriod bmp bmpLen =
      (ieFormat.enc ⟨timIeId, timBody dtimCnt dtimPeriod bmp bmpLen⟩,
        (ieFormat.enc ⟨timIeId, timBody dtimCnt dtimPeriod bmp bmpLen⟩).length) := by
  obtain ⟨-, -, hend⟩ := timRange_spec bmp hpos
  rw [rtwSetTimIe, Format.length_enc, Format.enc, length_timBody _ _ hlen hpos]
  have hret : 2 + 2 + 1 + (timRange bmp bmpLen).2 = 2 + (3 + (timRange bmp bmpLen).2) := by omega
  dsimp only
  rw [Nat.mod_eq_of_lt (by omega), hret]
  rfl

end Rtl88x2cu.Ap.Tim
