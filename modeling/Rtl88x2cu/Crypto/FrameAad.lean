import Rtl88x2cu.Lib.BlockMode

/-!
# What a protected frame authenticates of its header

`ccmp_aad_nonce` (`core/crypto/ccmp.c`) and `gcmp_aad_nonce` (`core/crypto/gcmp.c`) build the
additional authenticated data from a header, and the nonce from the header and the packet number
behind it. The two differ in the bit for a protected frame, which CCMP always sets, and in the first
byte of the nonce, which GCMP does not have.

`ccmpAadNonce_eq_iff` and `gcmpAadNonce_eq_iff` say which bits of a header they depend on.
-/

namespace Rtl88x2cu.Crypto

open Bytes

/-! ## Model -/

def WLAN_FC_TODS : BitVec 16 := 0x0100
def WLAN_FC_FROMDS : BitVec 16 := 0x0200
def WLAN_FC_RETRY : BitVec 16 := 0x0800
def WLAN_FC_PWRMGT : BitVec 16 := 0x1000
def WLAN_FC_MOREDATA : BitVec 16 := 0x2000
def WLAN_FC_ISWEP : BitVec 16 := 0x4000
def WLAN_FC_ORDER : BitVec 16 := 0x8000

/-- Two bytes, the lowest first. -/
def getLe16 (buf : List Byte) (off : ℕ) : BitVec 16 := buf.getD (off + 1) 0 ++ buf.getD off 0

/-- `WPA_PUT_LE16`. -/
def putLe16 (v : BitVec 16) : List Byte := [v.setWidth 8, (v >>> 8).setWidth 8]

/-- `WLAN_FC_GET_TYPE(fc) == WLAN_FC_TYPE_DATA`. -/
def isData (fc : BitVec 16) : Bool := fc &&& 0x000c = 0x0008

/-- `WLAN_FC_GET_TYPE(fc) == WLAN_FC_TYPE_MGMT`. -/
def isMgmt (fc : BitVec 16) : Bool := fc &&& 0x000c = 0x0000

/-- The variable `addr4`: the header has a fourth address. -/
def hasAddr4 (fc : BitVec 16) : Bool :=
  fc &&& (WLAN_FC_TODS ||| WLAN_FC_FROMDS) = WLAN_FC_TODS ||| WLAN_FC_FROMDS

/-- The variable `qos`: the header has a QoS control field. -/
def hasQos (fc : BitVec 16) : Bool := isData fc && (fc &&& 0x00f0) &&& 0x0080 ≠ 0

/-- The masked frame control field, with the bit `iswep` set. -/
def aadFc (iswep fc : BitVec 16) : BitVec 16 :=
  let fc' := if isData fc then fc &&& ~~~0x0070 else fc
  let fc' := if hasQos fc then fc' &&& ~~~WLAN_FC_ORDER else fc'
  (fc' &&& ~~~(WLAN_FC_RETRY ||| WLAN_FC_PWRMGT ||| WLAN_FC_MOREDATA)) ||| iswep

/-- Where the QoS control field is. -/
def qosOff (fc : BitVec 16) : ℕ := 24 + if hasAddr4 fc then 6 else 0

/-- The additional authenticated data of the header `hdr`. -/
def frameAad (iswep : BitVec 16) (hdr : List Byte) : List Byte :=
  let fc := getLe16 hdr 0
  putLe16 (aadFc iswep fc) ++ slice hdr 4 18 ++ putLe16 (getLe16 hdr 22 &&& ~~~0xfff0) ++
    slice hdr 24 (if hasAddr4 fc then 6 else 0) ++
    if hasQos fc then [(hdr.getD (qosOff fc) 0 &&& ~~~0x70) &&& ~~~0x80, 0] else []

/-- The packet number behind the header, the highest byte first. -/
def framePn (data : List Byte) : List Byte :=
  [data.getD 7 0, data.getD 6 0, data.getD 5 0, data.getD 4 0, data.getD 1 0, data.getD 0 0]

/-- The first byte of the nonce of CCMP. -/
def nonceFlags (hdr : List Byte) : Byte :=
  let fc := getLe16 hdr 0
  if isData fc then if hasQos fc then hdr.getD (qosOff fc) 0 &&& 0x0f else 0
  else if isMgmt fc then 0 ||| 0x10
  else 0

/-- `hdr->frame_control |= host_to_le16(WLAN_FC_ISWEP)`. -/
def setIswep (hdr : List Byte) : List Byte :=
  putLe16 (getLe16 hdr 0 ||| WLAN_FC_ISWEP) ++ hdr.drop 2

/-- The first part of the encrypted frame, that is the header and the eight bytes behind it, and the
plain text; without a packet number `pn`, these eight bytes are in the frame. -/
def frameStart (frame : List Byte) (plen hdrlen : ℕ) (pn : Option (Vector Byte 6))
    (keyid : Byte) : List Byte × List Byte :=
  match pn with
  | none => (frame.take (hdrlen + 8), slice frame (hdrlen + 8) plen)
  | some pn =>
    (frame.take hdrlen ++ [pn.toList.getD 5 0, pn.toList.getD 4 0, 0x00, 0x20 ||| (keyid <<< 6),
      pn.toList.getD 3 0, pn.toList.getD 2 0, pn.toList.getD 1 0, pn.toList.getD 0 0],
      slice frame hdrlen plen)

/-- `ccmp_aad_nonce`. -/
def ccmpAadNonce (hdr data : List Byte) : List Byte × List Byte :=
  (frameAad WLAN_FC_ISWEP hdr, nonceFlags hdr :: (slice hdr 10 6 ++ framePn data))

/-- `gcmp_aad_nonce`. -/
def gcmpAadNonce (hdr data : List Byte) : List Byte × List Byte :=
  (frameAad 0 hdr, slice hdr 10 6 ++ framePn data)

/-! ## Frame control -/

theorem or_eq_and_not_or (a s : BitVec 16) : a ||| s = (a &&& ~~~s) ||| s := by
  apply BitVec.eq_of_getLsbD_eq
  intro i hi
  simp only [BitVec.getLsbD_or, BitVec.getLsbD_and, BitVec.getLsbD_not, hi, decide_true,
    Bool.true_and]
  cases a.getLsbD i <;> cases s.getLsbD i <;> rfl

theorem or_and_not (a s : BitVec 16) : (a ||| s) &&& ~~~s = a &&& ~~~s := by
  apply BitVec.eq_of_getLsbD_eq
  intro i hi
  simp only [BitVec.getLsbD_or, BitVec.getLsbD_and, BitVec.getLsbD_not, hi, decide_true,
    Bool.true_and]
  cases a.getLsbD i <;> cases s.getLsbD i <;> rfl

theorem not_and_of_and_eq_zero {s m : BitVec 16} (h : s &&& m = 0) : ~~~s &&& m = m := by
  apply BitVec.eq_of_getLsbD_eq
  intro i hi
  have hbit : (s.getLsbD i && m.getLsbD i) = false := by
    rw [← BitVec.getLsbD_and, h]
    exact BitVec.getLsbD_zero
  rw [BitVec.getLsbD_and, BitVec.getLsbD_not, decide_eq_true hi, Bool.true_and]
  cases hs : s.getLsbD i <;> cases hm : m.getLsbD i <;> simp_all

/-- The bits of a frame control field that are not masked. -/
def keptFc (fc : BitVec 16) : BitVec 16 :=
  (if isData fc then ~~~0x0070 else BitVec.allOnes 16) &&&
    (if hasQos fc then ~~~WLAN_FC_ORDER else BitVec.allOnes 16) &&&
    ~~~(WLAN_FC_RETRY ||| WLAN_FC_PWRMGT ||| WLAN_FC_MOREDATA)

theorem aadFc_eq (iswep fc : BitVec 16) : aadFc iswep fc = (fc &&& keptFc fc) ||| iswep := by
  rw [aadFc, keptFc]
  cases isData fc <;> cases hasQos fc <;>
    simp only [Bool.false_eq_true, reduceIte, BitVec.allOnes_and, BitVec.and_assoc]

/-- A mask that is kept whole. -/
theorem aadFc_and {iswep : BitVec 16} (fc : BitVec 16) {m : BitVec 16} (hm : keptFc fc &&& m = m)
    (hiswep : iswep &&& m = 0) : aadFc iswep fc &&& m = fc &&& m := by
  rw [aadFc_eq, BitVec.and_or_distrib_right, BitVec.and_assoc, hm, hiswep]
  exact BitVec.or_zero

/-- The type, the direction and the bit for QoS are kept. -/
theorem keptFc_and (fc : BitVec 16) :
    keptFc fc &&& 0x000c = 0x000c ∧ keptFc fc &&& 0x0080 = 0x0080 ∧
      keptFc fc &&& (WLAN_FC_TODS ||| WLAN_FC_FROMDS) = WLAN_FC_TODS ||| WLAN_FC_FROMDS := by
  rw [keptFc]
  cases isData fc <;> cases hasQos fc <;> decide

section Iswep

variable {iswep : BitVec 16} (hiswep : iswep &&& 0x03ff = 0) (fc : BitVec 16)

include hiswep

theorem iswep_and {m : BitVec 16} (hm : 0x03ff &&& m = m) : iswep &&& m = 0 := by
  rw [← hm, ← BitVec.and_assoc, hiswep]
  exact BitVec.zero_and

theorem isData_aadFc : isData (aadFc iswep fc) = isData fc := by
  rw [isData, isData, aadFc_and fc (keptFc_and fc).1 (iswep_and hiswep (by decide))]

theorem hasAddr4_aadFc : hasAddr4 (aadFc iswep fc) = hasAddr4 fc := by
  rw [hasAddr4, hasAddr4, aadFc_and fc (keptFc_and fc).2.2 (iswep_and hiswep (by decide))]

theorem hasQos_aadFc : hasQos (aadFc iswep fc) = hasQos fc := by
  rw [hasQos, hasQos, isData_aadFc hiswep, BitVec.and_assoc, BitVec.and_assoc,
    show (0x00f0 : BitVec 16) &&& 0x0080 = 0x0080 from rfl,
    aadFc_and fc (keptFc_and fc).2.1 (iswep_and hiswep (by decide))]

/-- Two fields are masked to the same value if they agree in the bits that are kept and not set. -/
theorem aadFc_eq_iff (fc' : BitVec 16) :
    aadFc iswep fc = aadFc iswep fc' ↔
      fc &&& (keptFc fc &&& ~~~iswep) = fc' &&& (keptFc fc &&& ~~~iswep) := by
  constructor
  · intro h
    have hdata : isData fc = isData fc' := by
      rw [← isData_aadFc hiswep fc, h, isData_aadFc hiswep]
    have hqos : hasQos fc = hasQos fc' := by
      rw [← hasQos_aadFc hiswep fc, h, hasQos_aadFc hiswep]
    have hkept : keptFc fc' = keptFc fc := by
      rw [keptFc, keptFc, hdata, hqos]
    rw [aadFc_eq, aadFc_eq, hkept] at h
    rw [← BitVec.and_assoc, ← BitVec.and_assoc, ← or_and_not, h, or_and_not]
  · intro h
    -- the bits that decide what is masked are among those that agree
    have hand {m : BitVec 16} (hm : keptFc fc &&& m = m) (hm' : 0x03ff &&& m = m) :
        fc &&& m = fc' &&& m := by
      have hmask : (keptFc fc &&& ~~~iswep) &&& m = m := by
        rw [BitVec.and_assoc, not_and_of_and_eq_zero (iswep_and hiswep hm'), hm]
      rw [← hmask, ← BitVec.and_assoc, h, BitVec.and_assoc]
    have hdata : isData fc' = isData fc := by
      rw [isData, isData, hand (keptFc_and fc).1 (by decide)]
    have hqos : hasQos fc' = hasQos fc := by
      rw [hasQos, hasQos, hdata, BitVec.and_assoc, BitVec.and_assoc,
        show (0x00f0 : BitVec 16) &&& 0x0080 = 0x0080 from rfl,
        hand (keptFc_and fc).2.1 (by decide)]
    have hkept : keptFc fc' = keptFc fc := by
      rw [keptFc, keptFc, hdata, hqos]
    rw [aadFc_eq, aadFc_eq, hkept, or_eq_and_not_or, BitVec.and_assoc, h, ← BitVec.and_assoc,
      ← or_eq_and_not_or]

end Iswep

/-! ## Headers -/

/-- What has been written is read. -/
theorem getLe16_putLe16 (v : BitVec 16) (rest : List Byte) :
    getLe16 (putLe16 v ++ rest) 0 = v := by
  have hbytes : (v >>> 8).setWidth 8 ++ v.setWidth 8 = v := by
    apply BitVec.eq_of_getLsbD_eq
    intro i hi
    rw [BitVec.getLsbD_append]
    by_cases hi8 : i < 8
    · rw [if_pos hi8, BitVec.getLsbD_setWidth, decide_eq_true hi8, Bool.true_and]
    · rw [if_neg hi8, BitVec.getLsbD_setWidth, BitVec.getLsbD_ushiftRight,
        decide_eq_true (by omega), Bool.true_and, Nat.add_sub_cancel' (Nat.not_lt.mp hi8)]
  exact hbytes

theorem putLe16_injective {v w : BitVec 16} (h : putLe16 v = putLe16 w) : v = w := by
  rw [← getLe16_putLe16 v [], h, getLe16_putLe16]

/-- The headers agree in what is authenticated, where the bit `iswep` is set anyway. -/
structure SameHeader (iswep : BitVec 16) (hdr hdr' : List Byte) : Prop where
  fc : getLe16 hdr 0 &&& (keptFc (getLe16 hdr 0) &&& ~~~iswep) =
    getLe16 hdr' 0 &&& (keptFc (getLe16 hdr 0) &&& ~~~iswep)
  /-- Three addresses. -/
  addr : slice hdr 4 18 = slice hdr' 4 18
  /-- The number of the fragment, without the number of the frame. -/
  frag : getLe16 hdr 22 &&& 0x000f = getLe16 hdr' 22 &&& 0x000f
  addr4 : hasAddr4 (getLe16 hdr 0) → slice hdr 24 6 = slice hdr' 24 6
  tid : hasQos (getLe16 hdr 0) → hdr.getD (qosOff (getLe16 hdr 0)) 0 &&& 0x0f =
    hdr'.getD (qosOff (getLe16 hdr 0)) 0 &&& 0x0f

/-- The additional authenticated data is what the headers have to agree in. -/
theorem frameAad_eq_iff {iswep : BitVec 16} (hiswep : iswep &&& 0x03ff = 0) {hdr hdr' : List Byte}
    (hlen : 32 ≤ hdr.length) (hlen' : 32 ≤ hdr'.length) :
    frameAad iswep hdr = frameAad iswep hdr' ↔ SameHeader iswep hdr hdr' := by
  have hseq : ~~~(0xfff0 : BitVec 16) = 0x000f := by decide
  have hqc (b : Byte) : (b &&& ~~~0x70) &&& ~~~0x80 = b &&& 0x0f := by
    rw [BitVec.and_assoc]
    rfl
  constructor
  · intro h
    rw [frameAad, frameAad] at h
    simp only [List.append_assoc] at h
    obtain ⟨hfc, h⟩ := List.append_inj h rfl
    obtain ⟨haddr, h⟩ := List.append_inj h (by
      rw [length_slice (by omega), length_slice (by omega)])
    obtain ⟨hfrag, h⟩ := List.append_inj h rfl
    replace hfc := putLe16_injective hfc
    replace hfrag := putLe16_injective hfrag
    rw [hseq] at hfrag
    have hfour : hasAddr4 (getLe16 hdr 0) = hasAddr4 (getLe16 hdr' 0) := by
      rw [← hasAddr4_aadFc hiswep, hfc, hasAddr4_aadFc hiswep]
    have hqos : hasQos (getLe16 hdr 0) = hasQos (getLe16 hdr' 0) := by
      rw [← hasQos_aadFc hiswep, hfc, hasQos_aadFc hiswep]
    rw [← hfour, ← hqos] at h
    obtain ⟨haddr4, htid⟩ := List.append_inj h (by
      rw [length_slice (by split <;> omega), length_slice (by split <;> omega)])
    refine ⟨(aadFc_eq_iff hiswep _ _).mp hfc, haddr, hfrag, fun h4 => ?_, fun hq => ?_⟩
    · rwa [if_pos h4] at haddr4
    · rw [if_pos hq, if_pos hq, List.cons.injEq, hqc, hqc] at htid
      have hoff : qosOff (getLe16 hdr' 0) = qosOff (getLe16 hdr 0) := by
        rw [qosOff, qosOff, hfour]
      rw [htid.1, hoff]
  · intro h
    have hfc := (aadFc_eq_iff hiswep _ _).mpr h.fc
    have hfour : hasAddr4 (getLe16 hdr' 0) = hasAddr4 (getLe16 hdr 0) := by
      rw [← hasAddr4_aadFc hiswep, ← hfc, hasAddr4_aadFc hiswep]
    have hqos : hasQos (getLe16 hdr' 0) = hasQos (getLe16 hdr 0) := by
      rw [← hasQos_aadFc hiswep, ← hfc, hasQos_aadFc hiswep]
    have hoff : qosOff (getLe16 hdr' 0) = qosOff (getLe16 hdr 0) := by
      rw [qosOff, qosOff, hfour]
    rw [frameAad, frameAad, hfour, hqos, hoff, hfc, h.addr, hseq, h.frag]
    congr 1
    · congr 1
      by_cases h4 : hasAddr4 (getLe16 hdr 0)
      · rw [if_pos h4, h.addr4 h4]
      · rw [if_neg h4, slice, slice, List.take_zero, List.take_zero]
    · by_cases hq : hasQos (getLe16 hdr 0)
      · rw [if_pos hq, if_pos hq, hqc, hqc, h.tid hq]
      · rw [if_neg hq, if_neg hq]

theorem SameHeader.addr2 {iswep : BitVec 16} {hdr hdr' : List Byte}
    (h : SameHeader iswep hdr hdr') : slice hdr 10 6 = slice hdr' 10 6 := by
  have hmiddle (l : List Byte) : slice l 10 6 = slice (slice l 4 18) 6 6 := by
    rw [slice, slice, slice, List.drop_take, List.drop_drop, List.take_take]
    rfl
  rw [hmiddle, h.addr, ← hmiddle]

/-- The nonce of CCMP is given by the authenticated part of the header. -/
theorem nonceFlags_eq {hdr hdr' : List Byte} (h : SameHeader WLAN_FC_ISWEP hdr hdr') :
    nonceFlags hdr = nonceFlags hdr' := by
  have hiswep : WLAN_FC_ISWEP &&& 0x03ff = 0 := by decide
  have hfc := (aadFc_eq_iff hiswep _ _).mpr h.fc
  have hdata : isData (getLe16 hdr' 0) = isData (getLe16 hdr 0) := by
    rw [← isData_aadFc hiswep, ← hfc, isData_aadFc hiswep]
  have hqos : hasQos (getLe16 hdr' 0) = hasQos (getLe16 hdr 0) := by
    rw [← hasQos_aadFc hiswep, ← hfc, hasQos_aadFc hiswep]
  have hfour : hasAddr4 (getLe16 hdr' 0) = hasAddr4 (getLe16 hdr 0) := by
    rw [← hasAddr4_aadFc hiswep, ← hfc, hasAddr4_aadFc hiswep]
  have hmgmt : isMgmt (getLe16 hdr' 0) = isMgmt (getLe16 hdr 0) := by
    rw [isMgmt, isMgmt, ← aadFc_and _ (keptFc_and _).1 (iswep_and hiswep (by decide)), ← hfc,
      aadFc_and _ (keptFc_and _).1 (iswep_and hiswep (by decide))]
  have hoff : qosOff (getLe16 hdr' 0) = qosOff (getLe16 hdr 0) := by
    rw [qosOff, qosOff, hfour]
  rw [nonceFlags, nonceFlags, hdata, hqos, hmgmt, hoff]
  by_cases hq : hasQos (getLe16 hdr 0)
  · rw [if_pos hq, if_pos hq, h.tid hq]
  · rw [if_neg hq, if_neg hq]

theorem ccmpAadNonce_congr {hdr hdr' data data' : List Byte} (hlen : 32 ≤ hdr.length)
    (hlen' : 32 ≤ hdr'.length) (h : SameHeader WLAN_FC_ISWEP hdr hdr')
    (hpn : framePn data = framePn data') : ccmpAadNonce hdr data = ccmpAadNonce hdr' data' := by
  rw [ccmpAadNonce, ccmpAadNonce, (frameAad_eq_iff (by decide) hlen hlen').mpr h, nonceFlags_eq h,
    h.addr2, hpn]

/-- What CCMP authenticates of a header and the packet number behind it: of the frame control field
neither the bits for retransmission, power management and more data, nor the subtype of data frames,
nor the bit for a protected frame; of the sequence control the number of the fragment; of the QoS
control the traffic identifier; and of the field behind the header the packet number. -/
theorem ccmpAadNonce_eq_iff {hdr hdr' data data' : List Byte} (hlen : 32 ≤ hdr.length)
    (hlen' : 32 ≤ hdr'.length) :
    ccmpAadNonce hdr data = ccmpAadNonce hdr' data' ↔
      SameHeader WLAN_FC_ISWEP hdr hdr' ∧ framePn data = framePn data' := by
  refine ⟨fun h => ?_, fun h => ccmpAadNonce_congr hlen hlen' h.1 h.2⟩
  rw [ccmpAadNonce, ccmpAadNonce, Prod.mk.injEq, frameAad_eq_iff (by decide) hlen hlen'] at h
  obtain ⟨hsame, hnonce⟩ := h
  rw [nonceFlags_eq hsame, hsame.addr2, List.cons.injEq, List.append_right_inj] at hnonce
  exact ⟨hsame, hnonce.2⟩

/-- A retransmission has the same authenticated data. -/
theorem ccmpAadNonce_retry :
    ccmpAadNonce ([0x08, 0x41] ++ .replicate 30 0) [7, 0, 0, 0x20] =
      ccmpAadNonce ([0x08, 0x49] ++ .replicate 30 0) [7, 0, 0, 0x20] :=
  (ccmpAadNonce_eq_iff (by decide) (by decide)).mpr
    ⟨⟨by decide, rfl, rfl, fun h => absurd h (by decide), fun h => absurd h (by decide)⟩, rfl⟩

/-- For GCMP the bit for a protected frame is authenticated as it is. -/
theorem gcmpAadNonce_eq_iff {hdr hdr' data data' : List Byte} (hlen : 32 ≤ hdr.length)
    (hlen' : 32 ≤ hdr'.length) :
    gcmpAadNonce hdr data = gcmpAadNonce hdr' data' ↔
      SameHeader 0 hdr hdr' ∧ framePn data = framePn data' := by
  rw [gcmpAadNonce, gcmpAadNonce, Prod.mk.injEq, frameAad_eq_iff (by decide) hlen hlen']
  refine and_congr_right fun h => ?_
  rw [h.addr2, List.append_right_inj]

/-- A frame from another transmitter does not. -/
theorem gcmpAadNonce_transmitter :
    gcmpAadNonce (.replicate 32 0) [7, 0, 0, 0x20] ≠
      gcmpAadNonce (.replicate 10 0 ++ 1 :: .replicate 21 0) [7, 0, 0, 0x20] := by
  intro h
  have hsame := ((gcmpAadNonce_eq_iff (by decide) (by decide)).mp h).1
  exact absurd hsame.addr (by decide)

/-! ## The bytes that are read -/

theorem getD_take {l : List Byte} {i n : ℕ} (h : i < n) : (l.take n).getD i 0 = l.getD i 0 := by
  rw [List.getD_eq_getElem?_getD, List.getElem?_take_of_lt h, ← List.getD_eq_getElem?_getD]

theorem slice_take {l : List Byte} {off len n : ℕ} (h : off + len ≤ n) :
    slice (l.take n) off len = slice l off len := by
  rw [slice, slice, List.drop_take, List.take_take, Nat.min_eq_left (by omega)]

theorem qosOff_lt (fc : BitVec 16) : qosOff fc < 32 := by
  rw [qosOff]
  split <;> omega

/-- Only the first 32 bytes of a header are read. -/
theorem frameAad_take (iswep : BitVec 16) (hdr : List Byte) :
    frameAad iswep (hdr.take 32) = frameAad iswep hdr := by
  have hle {i : ℕ} (hi : i + 1 < 32) : getLe16 (hdr.take 32) i = getLe16 hdr i := by
    rw [getLe16, getLe16, getD_take hi, getD_take (by omega)]
  rw [frameAad, frameAad, hle (by decide), hle (by decide), slice_take (by decide),
    slice_take (by split <;> decide), getD_take (qosOff_lt _)]

theorem nonceFlags_take (hdr : List Byte) : nonceFlags (hdr.take 32) = nonceFlags hdr := by
  have hle : getLe16 (hdr.take 32) 0 = getLe16 hdr 0 := by
    rw [getLe16, getLe16, getD_take (by decide), getD_take (by decide)]
  rw [nonceFlags, nonceFlags, hle, getD_take (qosOff_lt _)]

theorem framePn_take (data : List Byte) : framePn (data.take 8) = framePn data := by
  simp only [framePn, getD_take (show 0 < 8 by decide), getD_take (show 1 < 8 by decide),
    getD_take (show 4 < 8 by decide), getD_take (show 5 < 8 by decide),
    getD_take (show 6 < 8 by decide), getD_take (show 7 < 8 by decide)]

theorem ccmpAadNonce_take (hdr data : List Byte) :
    ccmpAadNonce (hdr.take 32) (data.take 8) = ccmpAadNonce hdr data := by
  rw [ccmpAadNonce, ccmpAadNonce, frameAad_take, nonceFlags_take, framePn_take,
    slice_take (by decide)]

theorem gcmpAadNonce_take (hdr data : List Byte) :
    gcmpAadNonce (hdr.take 32) (data.take 8) = gcmpAadNonce hdr data := by
  rw [gcmpAadNonce, gcmpAadNonce, frameAad_take, framePn_take, slice_take (by decide)]

/-! ## The bit for a protected frame -/

theorem length_setIswep {hdr : List Byte} (h : 2 ≤ hdr.length) :
    (setIswep hdr).length = hdr.length := by
  rw [setIswep, List.length_append, List.length_drop, putLe16]
  simp only [List.length_cons, List.length_nil]
  omega

theorem setIswep_append {hdr rest : List Byte} (h : 2 ≤ hdr.length) :
    setIswep (hdr ++ rest) = setIswep hdr ++ rest := by
  have hle : getLe16 (hdr ++ rest) 0 = getLe16 hdr 0 := by
    simp only [getLe16, List.getD_eq_getElem?_getD]
    rw [List.getElem?_append_left (by omega), List.getElem?_append_left (by omega)]
  rw [setIswep, setIswep, hle, List.drop_append_of_le_length h, List.append_assoc]

theorem getLe16_setIswep (hdr : List Byte) :
    getLe16 (setIswep hdr) 0 = getLe16 hdr 0 ||| WLAN_FC_ISWEP :=
  getLe16_putLe16 _ _

/-- CCMP does not see whether the bit is set. -/
theorem sameHeader_setIswep (hdr : List Byte) :
    SameHeader WLAN_FC_ISWEP hdr (setIswep hdr) := by
  have hdrop : hdr.drop 2 = (setIswep hdr).drop 2 := by
    rw [setIswep, putLe16]
    rfl
  have hbyte {i : ℕ} (hi : 2 ≤ i) : hdr.getD i 0 = (setIswep hdr).getD i 0 := by
    rw [getD_eq_slice, getD_eq_slice (setIswep hdr), slice_congr hdrop hi]
  refine ⟨?_, slice_congr hdrop (by decide), ?_, fun _ => slice_congr hdrop (by decide), fun _ => ?_⟩
  · rw [getLe16_setIswep, BitVec.and_comm (keptFc _), ← BitVec.and_assoc, ← BitVec.and_assoc,
      or_and_not]
  · rw [getLe16, getLe16, hbyte (by decide), hbyte (by decide)]
  · rw [hbyte (by rw [qosOff]; omega)]

/-! ## Frames by their parts -/

section Parts

variable {hdr iv body mic room : List Byte}

theorem frameStart_none (hiv : iv.length = 8) (plain : List Byte) (keyid : Byte) :
    frameStart (hdr ++ (iv ++ (plain ++ room))) plain.length hdr.length none keyid =
      (hdr ++ iv, plain) := by
  rw [frameStart, ← List.append_assoc, ← hiv, ← List.length_append, List.take_left]
  exact congrArg _ (slice_middle rfl rfl)

/-- The authenticated data of a frame is that of its header and the eight bytes behind it. -/
theorem take_parts (body mic : List Byte) (hhdr : 24 ≤ hdr.length) (hiv : iv.length = 8) :
    (hdr ++ (iv ++ (body ++ mic))).take 32 = (hdr ++ iv).take 32 ∧
      (iv ++ (body ++ mic)).take 8 = iv.take 8 := by
  refine ⟨?_, List.take_append_of_le_length (Nat.le_of_eq hiv.symm)⟩
  rw [← List.append_assoc, List.take_append_of_le_length]
  rw [List.length_append]
  omega

theorem slice_parts (body mic : List Byte) (hiv : iv.length = 8) :
    slice (iv ++ (body ++ mic)) 8 body.length = body ∧
      slice (iv ++ (body ++ mic)) (8 + body.length) mic.length = mic := by
  refine ⟨slice_middle hiv rfl, ?_⟩
  rw [← List.append_assoc]
  exact slice_last (by rw [List.length_append, hiv]) rfl

/-- The payload of a frame is overwritten. -/
theorem memcpy_payload (hiv : iv.length = 8) {plain : List Byte}
    (hplain : plain.length = body.length) :
    memcpy (hdr ++ (iv ++ (body ++ mic))) (hdr.length + 8) plain =
      hdr ++ (iv ++ (plain ++ mic)) := by
  rw [← List.append_assoc, ← List.append_assoc hdr iv (plain ++ mic)]
  exact memcpy_middle (by rw [List.length_append, hiv]) hplain.symm

end Parts

/-- What is as long as the buffer is written over all of it. -/
theorem memcpy_all {buf src : List Byte} (h : src.length = buf.length) : memcpy buf 0 src = src := by
  rw [memcpy, List.take_zero, List.nil_append, Nat.zero_add, h, List.drop_length, List.append_nil]

end Rtl88x2cu.Crypto
