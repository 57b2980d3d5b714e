import Mathlib.Algebra.Order.Ring.Nat
import Mathlib.Data.List.GetD
import Rtl88x2cu.Lib.Bytes

/-!
# Broadcast/multicast integrity protocol

A group-addressed robust management frame carries a management MIC element: key id, IPN and a MIC
over header, body and element. `rtw_mgmt_xmitframe_coalesce` (`core/rtw_xmit.c`) appends the
element, `rtw_bip_verify` (`core/rtw_security.c`) checks it and stores the IPN. The primitives for
the MIC are a parameter.

`bip_ok` says that a protected frame is accepted, also with the flags for retry, power management
and more data changed, that accepted IPNs increase, and that a frame that fails a check changes
nothing. A frame that has been decrypted by hardware is not checked for its MIC.
-/

namespace Rtl88x2cu.Core.Bip

open Bytes

/-! ## Model -/

/-- `enum security_type`, as far as it is about BIP. -/
inductive SecurityType where
  | bipCmac128
  | bipCmac256
  | bipGmac128
  | bipGmac256
  | other
  deriving DecidableEq, Repr

/-- `omac1_aes_128`, `omac1_aes_256` and `aes_gmac`; `none` if they fail. -/
structure Primitives where
  omac1Aes128 (key data : List Byte) : Option (Vector Byte 16)
  omac1Aes256 (key data : List Byte) : Option (Vector Byte 16)
  aesGmac (key nonce data : List Byte) : Option (Vector Byte 16)

/-- `_bip_ccmp_protect`. -/
def bipCcmpProtect (P : Primitives) (key : List Byte) (keyLen : ℕ) (data : List Byte) :
    Option (Vector Byte 16) :=
  if keyLen = 16 then P.omac1Aes128 (key.take 16) data
  else if keyLen = 32 then P.omac1Aes256 (key.take 32) data
  else none

/-- `_bip_gcmp_protect`. -/
def bipGcmpProtect (P : Primitives) (whdrPos : List Byte) (len : ℕ) (key : List Byte) (keyLen : ℕ)
    (data : List Byte) : Option (Vector Byte 16) :=
  let micLen := 16
  let gcmpIpn := slice whdrPos (len - micLen - 6) 6
  let nonce := slice whdrPos 10 6 ++ gcmpIpn.reverse
  P.aesGmac (key.take keyLen) nonce data

/-- `rtw_calculate_bip_mic`. -/
def rtwCalculateBipMic (P : Primitives) (gmcs : SecurityType) (whdrPos : List Byte) (len : ℕ)
    (key data : List Byte) : Option (Vector Byte 16) :=
  match gmcs with
  | .bipCmac128 => bipCcmpProtect P key 16 data
  | .bipCmac256 => bipCcmpProtect P key 32 data
  | .bipGmac128 => bipGcmpProtect P whdrPos len key 16 data
  | .bipGmac256 => bipGcmpProtect P whdrPos len key 32 data
  | .other => none

/-- The frame control field. -/
def frameCtl (buf : List Byte) : BitVec 16 := buf.getD 1 0 ++ buf.getD 0 0

def setFrameCtl (buf : List Byte) (fc : BitVec 16) : List Byte :=
  memcpy buf 0 [fc.setWidth 8, (fc >>> 8).setWidth 8]

/-- `ClearRetry`. -/
def clearRetry (buf : List Byte) : List Byte := setFrameCtl buf (frameCtl buf &&& ~~~(1#16 <<< 11))

/-- `ClearPwrMgt`. -/
def clearPwrMgt (buf : List Byte) : List Byte := setFrameCtl buf (frameCtl buf &&& ~~~(1#16 <<< 12))

/-- `ClearMData`. -/
def clearMData (buf : List Byte) : List Byte := setFrameCtl buf (frameCtl buf &&& ~~~(1#16 <<< 13))

/-- `get_frame_sub_type`. -/
def getFrameSubType (buf : List Byte) : BitVec 16 := frameCtl buf &&& 0xfc

def wifiDisassoc : BitVec 16 := 0xa0
def wifiDeauth : BitVec 16 := 0xc0
def wifiAction : BitVec 16 := 0xd0

/-- `IS_MCAST`. -/
def isMcast (da : List Byte) : Bool := (da.getD 0 0).getLsbD 0

/-- `CATEGORY_IS_NON_ROBUST`. -/
def categoryIsNonRobust (cat : Byte) : Bool :=
  cat = 4 || cat = 7 || cat = 11 || cat = 15 || cat = 21 || cat = 0x7f

/-- `CATEGORY_IS_GROUP_PRIVACY`. -/
def categoryIsGroupPrivacy (cat : Byte) : Bool := cat = 13 || cat = 14

/-- The fields of `struct security_priv` for BIP. -/
structure SecurityPriv where
  dot11wCipher : SecurityType
  dot11wBIPKeyid : Fin 6
  dot11wBIPKey : Fin 6 → Vector Byte 32
  dot11wBIPtxpn : ℕ
  binstallBIPkey : Bool

/-- What `rtw_mgmt_xmitframe_coalesce` does with a frame. -/
inductive Coalesced where
  /-- It is sent as it is. -/
  | unprotected
  | secured (frame : List Byte)
  | fail
  /-- It is to be encrypted, not protected by BIP. -/
  | encrypted
  deriving DecidableEq, Repr

/-- The BIP part of `rtw_mgmt_xmitframe_coalesce`. -/
def bipProtect (P : Primitives) (s : SecurityPriv) (frame : List Byte) : Coalesced × SecurityPriv :=
  let mmeClen := if s.dot11wCipher = .bipCmac128 then 16 else 24
  let mmeCont := memcpy (List.replicate 24 0) 0 [BitVec.ofNat 8 s.dot11wBIPKeyid]
  let s := { s with dot11wBIPtxpn := (s.dot11wBIPtxpn + 1) % 2 ^ 64 }
  let mmeCont := memcpy mmeCont 2 (le 8 s.dot11wBIPtxpn)
  let pframe := frame ++ (76 :: BitVec.ofNat 8 mmeClen :: mmeCont.take mmeClen)
  let frameBodyLen := pframe.length - 24
  let aad := memcpy (List.replicate (20 + frame.length + 26) 0) 0 (slice pframe 0 2)
  let aad := clearMData (clearPwrMgt (clearRetry aad))
  let aad := memcpy aad 2 (slice pframe 4 18)
  let aad := memcpy aad 20 (slice pframe 24 frameBodyLen)
  match rtwCalculateBipMic P s.dot11wCipher pframe pframe.length
      (s.dot11wBIPKey s.dot11wBIPKeyid).toList (aad.take (20 + frameBodyLen)) with
  | none => (.fail, s)
  | some mic =>
    let micLen := if s.dot11wCipher = .bipCmac128 then 8 else 16
    (.secured (memcpy pframe (pframe.length - micLen) (mic.toList.take micLen)), s)

/-- `rtw_mgmt_xmitframe_coalesce`; `alloc` if its buffer is allocated. -/
def rtwMgmtXmitframeCoalesce (P : Primitives) (s : SecurityPriv) (ra frame : List Byte)
    (alloc : Bool) : Coalesced × SecurityPriv :=
  let subtype := getFrameSubType frame
  let category := frame.getD 24 0
  if subtype ≠ wifiDeauth ∧ subtype ≠ wifiDisassoc ∧ subtype ≠ wifiAction then (.unprotected, s)
  else if subtype = wifiAction ∧ categoryIsNonRobust category then (.unprotected, s)
  else if !isMcast ra then (.encrypted, s)
  else if !alloc then (.fail, s)
  else if subtype = wifiAction ∧ categoryIsGroupPrivacy category then (.encrypted, s)
  else if !s.binstallBIPkey then (.unprotected, s)
  else bipProtect P s frame

/-- A frame that `rtw_bip_verify` is called for: `pkt_len` is the length of the packet in the
receive descriptor, `bdecrypted` if hardware has decrypted it, `alloc` if the buffer is
allocated. -/
structure RxFrame where
  bytes : List Byte
  pktLen : ℕ
  bdecrypted : Bool
  alloc : Bool
  deriving DecidableEq, Repr

/-- The result of `rtw_bip_verify`. -/
inductive Verified where
  | success
  | fail
  | handled
  deriving DecidableEq, Repr

def micLen (gmcs : SecurityType) : ℕ := if gmcs = .bipCmac128 then 8 else 16

/-- The offset of the element. -/
def mmePos (gmcs : SecurityType) (frame : List Byte) : ℕ :=
  frame.length - if micLen gmcs = 8 then 18 else 26

def pktKeyid (gmcs : SecurityType) (frame : List Byte) : ℕ :=
  ofLe (slice frame (mmePos gmcs frame + 2) 2)

def pktIpn (gmcs : SecurityType) (frame : List Byte) : ℕ :=
  ofLe (slice frame (mmePos gmcs frame + 4) 6)

/-- The MIC that the receiver computes. -/
def rxMic (P : Primitives) (gmcs : SecurityType) (key : List Byte) (r : RxFrame) :
    Option (Vector Byte 16) :=
  let flen := r.bytes.length
  let oriLen := flen - 24 + 20
  let aad := List.replicate oriLen 0
  let aad := memcpy aad 20 (slice r.bytes 24 (flen - 24 - micLen gmcs))
  let aad := memcpy aad 0 (slice r.bytes 0 2)
  let aad := clearMData (clearPwrMgt (clearRetry aad))
  let aad := memcpy aad 2 (slice r.bytes 4 18)
  rtwCalculateBipMic P gmcs r.bytes r.pktLen key aad

/-- The comparison of the MIC. -/
def micOk (P : Primitives) (gmcs : SecurityType) (key : List Byte) (r : RxFrame) : Bool :=
  match rxMic P gmcs key r with
  | none => false
  | some mic =>
    mic.toList.take (micLen gmcs) = slice r.bytes (r.bytes.length - micLen gmcs) (micLen gmcs)

/-- `rtw_bip_verify`, with the stored IPN. -/
def rtwBipVerify (P : Primitives) (gmcs : SecurityType) (key : List Byte) (keyid : ℕ) (ipn : ℕ)
    (r : RxFrame) : Verified × ℕ :=
  let flen := r.bytes.length
  if flen < 24 ∨ flen - 24 < micLen gmcs then (.handled, ipn)
  else if r.bytes.getD (mmePos gmcs r.bytes) 0 ≠ 76 then (.handled, ipn)
  else if pktKeyid gmcs r.bytes ≠ keyid then (.fail, ipn)
  else if pktIpn gmcs r.bytes ≤ ipn then (.fail, ipn)
  else if r.bdecrypted then (.success, pktIpn gmcs r.bytes)
  else if !r.alloc then (.fail, ipn)
  else if micOk P gmcs key r then (.success, pktIpn gmcs r.bytes)
  else (.fail, ipn)

/-! ## The frame control field -/

/-- The frame control field as it is authenticated. -/
def maskFc (fc : BitVec 16) : BitVec 16 :=
  fc &&& ~~~(1#16 <<< 11) &&& ~~~(1#16 <<< 12) &&& ~~~(1#16 <<< 13)

theorem setFrameCtl_eq (buf : List Byte) (fc : BitVec 16) :
    setFrameCtl buf fc = [fc.setWidth 8, (fc >>> 8).setWidth 8] ++ buf.drop 2 := rfl

@[simp]
theorem frameCtl_setFrameCtl (buf : List Byte) (fc : BitVec 16) :
    frameCtl (setFrameCtl buf fc) = fc := by
  rw [setFrameCtl_eq]
  change (fc >>> 8).setWidth 8 ++ fc.setWidth 8 = fc
  ext i hi
  rw [BitVec.getElem_append]
  split
  case isTrue h => simp [BitVec.getLsbD_eq_getElem hi]
  case isFalse h => simp [Nat.add_sub_cancel' (Nat.le_of_not_lt h), BitVec.getLsbD_eq_getElem hi]

@[simp]
theorem setFrameCtl_setFrameCtl (buf : List Byte) (fc fc' : BitVec 16) :
    setFrameCtl (setFrameCtl buf fc) fc' = setFrameCtl buf fc' := rfl

theorem clear_eq (buf : List Byte) :
    clearMData (clearPwrMgt (clearRetry buf)) = setFrameCtl buf (maskFc (frameCtl buf)) := by
  rw [clearMData, clearPwrMgt, clearRetry]
  simp only [frameCtl_setFrameCtl, setFrameCtl_setFrameCtl]
  rfl

/-! ## The authenticated data -/

/-- What is authenticated of the header. -/
def aadHead (frame : List Byte) : List Byte :=
  setFrameCtl [] (maskFc (frameCtl frame)) ++ slice frame 4 18

theorem frameCtl_slice (frame : List Byte) (b : List Byte) (h : 2 ≤ frame.length) :
    frameCtl (slice frame 0 2 ++ b) = frameCtl frame := by
  obtain _ | ⟨b0, _ | ⟨b1, rest⟩⟩ := frame
  · contradiction
  · contradiction
  · rfl

theorem length_aadHead {frame : List Byte} (h : 24 ≤ frame.length) :
    (aadHead frame).length = 20 := by
  rw [aadHead, List.length_append, length_slice (by omega)]
  rfl

/-- Both sides write the header over a buffer the same way. -/
theorem memcpy_header (buf : List Byte) {frame : List Byte} (h : 24 ≤ frame.length) :
    memcpy (clearMData (clearPwrMgt (clearRetry (memcpy buf 0 (slice frame 0 2))))) 2
      (slice frame 4 18) = aadHead frame ++ buf.drop 20 := by
  have hfc : memcpy buf 0 (slice frame 0 2) = slice frame 0 2 ++ buf.drop 2 := by
    rw [memcpy, length_slice (by omega)]
    rfl
  have hlen : (slice frame 0 2).length = 2 := length_slice (by omega)
  rw [hfc, clear_eq, frameCtl_slice frame _ (by omega), setFrameCtl_eq,
    List.drop_left' hlen, memcpy, length_slice (by omega), aadHead, setFrameCtl_eq]
  simp [List.drop_drop]

/-- What the sender authenticates. -/
theorem txAad_eq (buf : List Byte) {pframe : List Byte} (h : 24 ≤ pframe.length) :
    (memcpy (memcpy (clearMData (clearPwrMgt (clearRetry (memcpy buf 0 (slice pframe 0 2))))) 2
      (slice pframe 4 18)) 20 (slice pframe 24 (pframe.length - 24))).take
        (20 + (pframe.length - 24)) = aadHead pframe ++ pframe.drop 24 := by
  have hbody : slice pframe 24 (pframe.length - 24) = pframe.drop 24 := by
    rw [slice, ← List.length_drop, List.take_length]
  have hhead := length_aadHead h
  rw [memcpy_header buf h, hbody, memcpy, List.take_left' hhead]
  apply List.take_left'
  rw [List.length_append, hhead, List.length_drop]

/-- What the receiver authenticates. -/
theorem rxAad_eq {frame : List Byte} {m : ℕ} (h : 24 + m ≤ frame.length) :
    memcpy (clearMData (clearPwrMgt (clearRetry (memcpy
      (memcpy (List.replicate (frame.length - 24 + 20) 0) 20
        (slice frame 24 (frame.length - 24 - m)))
        0 (slice frame 0 2))))) 2 (slice frame 4 18) =
      aadHead frame ++ (slice frame 24 (frame.length - 24 - m) ++ List.replicate m 0) := by
  have hlen : (slice frame 24 (frame.length - 24 - m)).length = frame.length - 24 - m :=
    length_slice (by omega)
  have hrest : frame.length - 24 + 20 - (20 + (frame.length - 24 - m)) = m := by omega
  rw [memcpy_header _ (by omega), memcpy, hlen, List.append_assoc,
    List.drop_left' (by rw [List.length_take, List.length_replicate]; omega),
    List.drop_replicate, hrest]

/-- The MIC depends on the frame by two slices: the transmitter's address and the IPN. -/
theorem rtwCalculateBipMic_congr {P : Primitives} {gmcs : SecurityType} {hdr hdr' : List Byte}
    {len : ℕ} (haddr : slice hdr 10 6 = slice hdr' 10 6)
    (hipn : micLen gmcs = 16 → slice hdr (len - 16 - 6) 6 = slice hdr' (len - 16 - 6) 6)
    (key data : List Byte) :
    rtwCalculateBipMic P gmcs hdr len key data = rtwCalculateBipMic P gmcs hdr' len key data := by
  cases gmcs <;> try rfl
  all_goals rw [rtwCalculateBipMic, rtwCalculateBipMic, bipGcmpProtect, bipGcmpProtect, haddr,
    hipn rfl]

/-- What is behind the IPN does not matter. -/
theorem rtwCalculateBipMic_append {P : Primitives} {gmcs : SecurityType} {buf : List Byte}
    (h : 24 ≤ buf.length) (b key data : List Byte) :
    rtwCalculateBipMic P gmcs (buf ++ b) (buf.length + micLen gmcs) key data =
      rtwCalculateBipMic P gmcs buf (buf.length + micLen gmcs) key data := by
  apply rtwCalculateBipMic_congr (slice_append (by omega))
  intro hm
  apply slice_append
  omega

/-! ## The protected frame -/

/-- The element without its MIC. -/
def mmeHead (gmcs : SecurityType) (keyid pn : ℕ) : List Byte :=
  [76, BitVec.ofNat 8 (8 + micLen gmcs), BitVec.ofNat 8 keyid, 0] ++ le 6 pn

@[simp]
theorem length_mmeHead (gmcs : SecurityType) (keyid pn : ℕ) :
    (mmeHead gmcs keyid pn).length = 10 := by
  rw [mmeHead, List.length_append, length_le]
  rfl

theorem micLen_le (gmcs : SecurityType) : micLen gmcs = 8 ∨ micLen gmcs = 16 := by
  cases gmcs
  case bipCmac128 => exact .inl rfl
  all_goals exact .inr rfl

/-- The element that the sender appends, with its MIC all zero. -/
theorem mme_eq (gmcs : SecurityType) (keyid : ℕ) {pn : ℕ} (hpn : pn < 2 ^ 48) :
    76 :: BitVec.ofNat 8 (8 + micLen gmcs) ::
      (memcpy (memcpy (List.replicate 24 0) 0 [BitVec.ofNat 8 keyid]) 2 (le 8 pn)).take
        (8 + micLen gmcs) = mmeHead gmcs keyid pn ++ List.replicate (micLen gmcs) 0 := by
  have hle : le 8 pn = le 6 pn ++ List.replicate 2 0 := le_add_of_lt (m := 6) (by simpa using hpn) 2
  rw [hle, mmeHead]
  obtain hm | hm := micLen_le gmcs <;> rw [hm] <;> rfl

/-- The frame before its MIC. -/
def signed (s : SecurityPriv) (frame : List Byte) : List Byte :=
  frame ++ mmeHead s.dot11wCipher s.dot11wBIPKeyid s.dot11wBIPtxpn

theorem length_signed (s : SecurityPriv) (frame : List Byte) :
    (signed s frame).length = frame.length + 10 := by
  rw [signed, List.length_append, length_mmeHead]

/-- What the MIC of a frame is computed over. -/
def signedAad (s : SecurityPriv) (frame : List Byte) : List Byte :=
  aadHead frame ++ ((signed s frame).drop 24 ++ List.replicate (micLen s.dot11wCipher) 0)

theorem aadHead_append {frame : List Byte} (h : 24 ≤ frame.length) (b : List Byte) :
    aadHead (frame ++ b) = aadHead frame := by
  have hfc : frameCtl (frame ++ b) = frameCtl frame := by
    rw [frameCtl, frameCtl, List.getD_append _ _ _ _ (by omega),
      List.getD_append _ _ _ _ (by omega)]
  rw [aadHead, aadHead, hfc, slice_append (by omega)]

theorem bipProtect_secured {P : Primitives} {s s' : SecurityPriv} {frame f : List Byte}
    (hframe : 24 ≤ frame.length) (h : bipProtect P s frame = (.secured f, s'))
    (hpn : s'.dot11wBIPtxpn < 2 ^ 48) :
    s'.dot11wCipher = s.dot11wCipher ∧ s'.dot11wBIPKeyid = s.dot11wBIPKeyid ∧
      ∃ mic : Vector Byte 16,
        rtwCalculateBipMic P s.dot11wCipher (signed s' frame) ((signed s' frame).length +
          micLen s.dot11wCipher) (s.dot11wBIPKey s.dot11wBIPKeyid).toList (signedAad s' frame) =
            some mic ∧
        f = signed s' frame ++ mic.toList.take (micLen s.dot11wCipher) := by
  have hclen : (if s.dot11wCipher = .bipCmac128 then 16 else 24) = 8 + micLen s.dot11wCipher := by
    rw [micLen]
    split <;> rfl
  have hs' : s' = { s with dot11wBIPtxpn := (s.dot11wBIPtxpn + 1) % 2 ^ 64 } := by
    rw [bipProtect] at h
    dsimp only at h
    split at h
    · exact absurd (congrArg Prod.fst h) (by simp)
    · exact (congrArg Prod.snd h).symm
  obtain ⟨hc, hk, hp⟩ : s'.dot11wCipher = s.dot11wCipher ∧ s'.dot11wBIPKeyid = s.dot11wBIPKeyid ∧
      s'.dot11wBIPtxpn = (s.dot11wBIPtxpn + 1) % 2 ^ 64 := by
    rw [hs']
    exact ⟨rfl, rfl, rfl⟩
  refine ⟨hc, hk, ?_⟩
  rw [bipProtect] at h
  simp only [hclen, ← hp, mme_eq s.dot11wCipher _ hpn] at h
  have hpf : frame ++ (mmeHead s.dot11wCipher s.dot11wBIPKeyid s'.dot11wBIPtxpn ++
      List.replicate (micLen s.dot11wCipher) 0) =
      signed s' frame ++ List.replicate (micLen s.dot11wCipher) 0 := by
    rw [signed, hk, hc, List.append_assoc]
  have hsigned := length_signed s' frame
  have hhead : aadHead (signed s' frame ++ List.replicate (micLen s.dot11wCipher) 0) =
      aadHead frame := by
    rw [signed, List.append_assoc, aadHead_append hframe]
  rw [hpf, txAad_eq _ (by rw [List.length_append]; omega), hhead,
    List.drop_append_of_le_length (by omega), List.length_append, List.length_replicate] at h
  rw [signedAad, hc]
  split at h
  case h_1 => exact absurd (congrArg Prod.fst h) (by simp)
  case h_2 mic hmic =>
    refine ⟨mic, ?_, ?_⟩
    · rwa [rtwCalculateBipMic_append (by omega)] at hmic
    have hf := Coalesced.secured.inj (congrArg Prod.fst h)
    change memcpy _ (_ - micLen s.dot11wCipher) (mic.toList.take (micLen s.dot11wCipher)) = f at hf
    rw [Nat.add_sub_cancel, memcpy_last rfl] at hf
    · exact hf.symm
    · rw [List.length_take, Vector.length_toList, List.length_replicate]
      obtain hm | hm := micLen_le s.dot11wCipher <;> rw [hm] <;> rfl

/-- Only the BIP part protects a frame. -/
theorem coalesce_secured {P : Primitives} {s s' : SecurityPriv} {ra frame f : List Byte}
    {alloc : Bool} (h : rtwMgmtXmitframeCoalesce P s ra frame alloc = (.secured f, s')) :
    bipProtect P s frame = (.secured f, s') := by
  unfold rtwMgmtXmitframeCoalesce at h
  dsimp only at h
  iterate 6
    obtain ⟨-, h⟩ := (ite_eq_iff.mp h).resolve_left fun h => by simp at h
  exact h

/-! ## The receiver -/

/-- The frame `f` arrives as `r`: the flags for retry, power management and more data may differ. -/
structure Delivered (f : List Byte) (r : RxFrame) : Prop where
  frameCtl : maskFc (frameCtl r.bytes) = maskFc (frameCtl f)
  drop : r.bytes.drop 2 = f.drop 2
  length : r.bytes.length = f.length
  pktLen : r.pktLen = r.bytes.length
  alloc : r.alloc = true

theorem mmePos_eq (gmcs : SecurityType) (frame : List Byte) :
    mmePos gmcs frame = frame.length - (10 + micLen gmcs) := by
  rw [mmePos]
  obtain hm | hm := micLen_le gmcs <;> rw [hm] <;> rfl

namespace Delivered

variable {s : SecurityPriv} {frame t : List Byte} {r : RxFrame}
  (hr : Delivered (signed s frame ++ t) r)

include hr

/-- A slice behind the frame control field and before the MIC is the one that was sent. -/
theorem slice_eq {off len : ℕ} (h2 : 2 ≤ off) (h : off + len ≤ frame.length + 10) :
    slice r.bytes off len = slice (signed s frame) off len := by
  rw [slice_congr hr.drop h2, slice_append]
  rwa [length_signed]

section

variable (hframe : 24 ≤ frame.length)

include hframe

theorem slice_mme {off len : ℕ} (h : off + len ≤ 10) :
    slice r.bytes (frame.length + off) len =
      slice (mmeHead s.dot11wCipher s.dot11wBIPKeyid s.dot11wBIPtxpn) off len := by
  rw [hr.slice_eq (by omega) (by omega), signed, slice_append_right]

theorem aadHead_eq : aadHead r.bytes = aadHead frame := by
  have hfc : Bip.frameCtl (signed s frame ++ t) = Bip.frameCtl frame := by
    rw [signed, List.append_assoc, Bip.frameCtl, Bip.frameCtl, List.getD_append _ _ _ _ (by omega),
      List.getD_append _ _ _ _ (by omega)]
  rw [aadHead, aadHead, hr.frameCtl, hfc, hr.slice_eq (by omega) (by omega), signed,
    slice_append (by omega)]

end

variable (ht : t.length = micLen s.dot11wCipher)

include ht

theorem length_eq : r.bytes.length = frame.length + (10 + micLen s.dot11wCipher) := by
  rw [hr.length, List.length_append, length_signed, ht]
  omega

theorem mmePos_eq : mmePos s.dot11wCipher r.bytes = frame.length := by
  rw [Bip.mmePos_eq, hr.length_eq ht, Nat.add_sub_cancel]

theorem mic_eq :
    slice r.bytes (r.bytes.length - micLen s.dot11wCipher) (micLen s.dot11wCipher) = t := by
  have hlen := hr.length_eq ht
  have hsigned := length_signed s frame
  have hoff : (signed s frame).length = r.bytes.length - micLen s.dot11wCipher := by omega
  rw [slice_congr hr.drop (by omega), slice_last hoff ht]

variable (hframe : 24 ≤ frame.length)

include hframe

theorem mme : r.bytes.getD (mmePos s.dot11wCipher r.bytes) 0 = 76 := by
  rw [hr.mmePos_eq ht, getD_eq_slice, ← Nat.add_zero frame.length, hr.slice_mme hframe (by decide)]
  rfl

theorem pktKeyid_eq : pktKeyid s.dot11wCipher r.bytes = s.dot11wBIPKeyid := by
  rw [pktKeyid, hr.mmePos_eq ht, hr.slice_mme hframe (by decide)]
  change (s.dot11wBIPKeyid : ℕ) % 256 + 256 * (0 + 256 * 0) = s.dot11wBIPKeyid
  omega

theorem pktIpn_eq (hpn : s.dot11wBIPtxpn < 2 ^ 48) :
    pktIpn s.dot11wCipher r.bytes = s.dot11wBIPtxpn := by
  rw [pktIpn, hr.mmePos_eq ht, hr.slice_mme hframe (by decide)]
  change ofLe (le 6 s.dot11wBIPtxpn) = s.dot11wBIPtxpn
  exact ofLe_le hpn

/-- The receiver computes the MIC over what the sender has computed it over. -/
theorem rxMic_eq (P : Primitives) (key : List Byte) :
    rxMic P s.dot11wCipher key r = rtwCalculateBipMic P s.dot11wCipher (signed s frame)
      ((signed s frame).length + micLen s.dot11wCipher) key (signedAad s frame) := by
  have hlen := hr.length_eq ht
  have hsigned := length_signed s frame
  have hbody : slice r.bytes 24 (r.bytes.length - 24 - micLen s.dot11wCipher) =
      (signed s frame).drop 24 := by
    rw [hr.slice_eq (by omega) (by omega), slice]
    apply List.take_of_length_le
    rw [List.length_drop]
    omega
  have hpkt : r.pktLen = (signed s frame).length + micLen s.dot11wCipher := by
    rw [hr.pktLen]
    omega
  rw [rxMic, rxAad_eq (by omega), hbody, hr.aadHead_eq hframe, hpkt, signedAad]
  apply rtwCalculateBipMic_congr (hr.slice_eq (by omega) (by omega))
  intro hm
  exact hr.slice_eq (by omega) (by omega)

/-- The protected frame passes all checks. -/
theorem rtwBipVerify_eq {P : Primitives} {key : List Byte} {mic : Vector Byte 16} {ipn : ℕ}
    (hmic : rtwCalculateBipMic P s.dot11wCipher (signed s frame) ((signed s frame).length +
      micLen s.dot11wCipher) key (signedAad s frame) = some mic)
    (htag : t = mic.toList.take (micLen s.dot11wCipher)) (hpn : s.dot11wBIPtxpn < 2 ^ 48)
    (hipn : ipn < s.dot11wBIPtxpn) :
    rtwBipVerify P s.dot11wCipher key s.dot11wBIPKeyid ipn r = (.success, s.dot11wBIPtxpn) := by
  have hlen := hr.length_eq ht
  have hok : micOk P s.dot11wCipher key r = true := by
    rw [micOk, hr.rxMic_eq ht hframe, hmic]
    exact decide_eq_true (htag.symm.trans (hr.mic_eq ht).symm)
  rw [rtwBipVerify, if_neg (by omega), if_neg (not_not.mpr (hr.mme ht hframe)),
    if_neg (not_not.mpr (hr.pktKeyid_eq ht hframe)), hr.pktIpn_eq ht hframe hpn,
    if_neg (Nat.not_le.mpr hipn), hr.alloc, hok]
  split <;> rfl

end Delivered

/-! ## Main results -/

/-- The checks on the key id, the IPN and the MIC; a frame that hardware has decrypted is not
checked for its MIC. -/
def Checked (P : Primitives) (gmcs : SecurityType) (key : List Byte) (keyid ipn : ℕ) (r : RxFrame) :
    Prop :=
  pktKeyid gmcs r.bytes = keyid ∧ ipn < pktIpn gmcs r.bytes ∧
    (r.bdecrypted = true ∨ micOk P gmcs key r = true)

/-- What `rtw_bip_verify` does to the stored IPN. -/
theorem rtwBipVerify_cases (P : Primitives) (gmcs : SecurityType) (key : List Byte) (keyid ipn : ℕ)
    (r : RxFrame) :
    let v := rtwBipVerify P gmcs key keyid ipn r
    (v.1 = .success ∧ Checked P gmcs key keyid ipn r ∧ v.2 = pktIpn gmcs r.bytes) ∨
      (v.1 ≠ .success ∧ v.2 = ipn) := by
  dsimp only
  rw [rtwBipVerify]
  -- too short, or no element
  by_cases hlen : r.bytes.length < 24 ∨ r.bytes.length - 24 < micLen gmcs
  · rw [if_pos hlen]
    exact .inr ⟨nofun, rfl⟩
  rw [if_neg hlen]
  by_cases hmme : r.bytes.getD (mmePos gmcs r.bytes) 0 = 76
  case neg =>
    rw [if_pos hmme]
    exact .inr ⟨nofun, rfl⟩
  rw [if_neg (not_not.mpr hmme)]
  by_cases hkeyid : pktKeyid gmcs r.bytes = keyid
  case neg =>
    rw [if_pos hkeyid]
    exact .inr ⟨nofun, rfl⟩
  rw [if_neg (not_not.mpr hkeyid)]
  by_cases hipn : pktIpn gmcs r.bytes ≤ ipn
  · rw [if_pos hipn]
    exact .inr ⟨nofun, rfl⟩
  rw [if_neg hipn]
  obtain hdec | hdec := Bool.eq_false_or_eq_true r.bdecrypted
  · rw [if_pos hdec]
    exact .inl ⟨rfl, ⟨hkeyid, Nat.not_le.mp hipn, .inl hdec⟩, rfl⟩
  rw [if_neg (Bool.eq_false_iff.mp hdec)]
  -- the buffer, then the MIC
  by_cases halloc : (!r.alloc) = true
  · rw [if_pos halloc]
    exact .inr ⟨nofun, rfl⟩
  rw [if_neg halloc]
  by_cases hmic : micOk P gmcs key r = true
  · rw [if_pos hmic]
    exact .inl ⟨rfl, ⟨hkeyid, Nat.not_le.mp hipn, .inr hmic⟩, rfl⟩
  · rw [if_neg hmic]
    exact .inr ⟨nofun, rfl⟩

/-- The IPNs that are accepted of a sequence of frames, and the IPN that is stored at last. -/
def rtwBipVerifyAll (P : Primitives) (gmcs : SecurityType) (key : List Byte) (keyid : ℕ) :
    ℕ → List RxFrame → List ℕ × ℕ
  | ipn, [] => ([], ipn)
  | ipn, r :: rs =>
    let (v, ipn') := rtwBipVerify P gmcs key keyid ipn r
    let (acc, last) := rtwBipVerifyAll P gmcs key keyid ipn' rs
    (if v = .success then ipn' :: acc else acc, last)

/-- Accepted IPNs increase from the stored one on, and the last one is stored. -/
theorem rtwBipVerifyAll_increasing (P : Primitives) (gmcs : SecurityType) (key : List Byte)
    (keyid ipn : ℕ) (rs : List RxFrame) :
    let all := rtwBipVerifyAll P gmcs key keyid ipn rs
    (ipn :: all.1).Pairwise (· < ·) ∧ (ipn :: all.1).getLast? = some all.2 := by
  induction rs generalizing ipn with
  | nil => exact ⟨List.pairwise_singleton _ _, rfl⟩
  | cons r rs ih =>
    dsimp only [rtwBipVerifyAll]
    obtain ⟨hv, ⟨-, hlt, -⟩, hipn⟩ | ⟨hv, hipn⟩ := rtwBipVerify_cases P gmcs key keyid ipn r
    case inl =>
      obtain ⟨hpair, hlast⟩ := ih (rtwBipVerify P gmcs key keyid ipn r).2
      rw [if_pos hv]
      refine ⟨List.pairwise_cons.mpr ⟨?_, hpair⟩, hlast⟩
      rintro n (_ | ⟨_, hn⟩)
      · rwa [hipn]
      · exact Nat.lt_trans (hipn ▸ hlt) (List.rel_of_pairwise_cons hpair hn)
    case inr =>
      rw [if_neg hv, hipn]
      exact ih ipn

/-- A protected frame is accepted, whatever the receiver has stored below its IPN. Accepted IPNs
increase. A frame that fails a check leaves the stored IPN unchanged. -/
theorem bip_ok (P : Primitives) :
    (∀ (s s' : SecurityPriv) (ra : List Byte) (hdr : Vector Byte 24) (body f : List Byte)
      (alloc : Bool) (r : RxFrame) (ipn : ℕ),
      rtwMgmtXmitframeCoalesce P s ra (hdr.toList ++ body) alloc = (.secured f, s') →
      s'.dot11wBIPtxpn < 2 ^ 48 → Delivered f r → ipn < s'.dot11wBIPtxpn →
      rtwBipVerify P s.dot11wCipher
        (s.dot11wBIPKey s.dot11wBIPKeyid).toList s.dot11wBIPKeyid ipn r =
        (.success, s'.dot11wBIPtxpn)) ∧
    (∀ (gmcs : SecurityType) (key : List Byte) (keyid ipn : ℕ) (rs : List RxFrame),
      let all := rtwBipVerifyAll P gmcs key keyid ipn rs
      (ipn :: all.1).Pairwise (· < ·) ∧ (ipn :: all.1).getLast? = some all.2) ∧
    ∀ (gmcs : SecurityType) (key : List Byte) (keyid ipn : ℕ) (r : RxFrame),
      ¬Checked P gmcs key keyid ipn r → (rtwBipVerify P gmcs key keyid ipn r).2 = ipn := by
  refine ⟨?_, rtwBipVerifyAll_increasing P, ?_⟩
  · intro s s' ra hdr body f alloc r ipn h hpn hr hipn
    have hframe : 24 ≤ (hdr.toList ++ body).length := by
      rw [List.length_append, Vector.length_toList]
      omega
    obtain ⟨hc, hk, mic, hmic, rfl⟩ := bipProtect_secured hframe (coalesce_secured h) hpn
    rw [← hc] at hmic hr ⊢
    rw [← hk] at hmic ⊢
    have ht : (mic.toList.take (micLen s'.dot11wCipher)).length = micLen s'.dot11wCipher := by
      rw [List.length_take, Vector.length_toList]
      obtain hm | hm := micLen_le s'.dot11wCipher <;> rw [hm] <;> rfl
    exact hr.rtwBipVerify_eq ht hframe hmic rfl hpn hipn
  · intro gmcs key keyid ipn r hr
    obtain ⟨-, hok, -⟩ | ⟨-, hipn⟩ := rtwBipVerify_cases P gmcs key keyid ipn r
    · contradiction
    · exact hipn

/-- Primitives whose MIC is all zero. -/
def zeroPrimitives : Primitives where
  omac1Aes128 _ _ := some (Vector.replicate 16 0)
  omac1Aes256 _ _ := some (Vector.replicate 16 0)
  aesGmac _ _ _ := some (Vector.replicate 16 0)

/-- A key is installed, 6 frames have been protected. -/
def initPriv (cipher : SecurityType) : SecurityPriv :=
  { dot11wCipher := cipher, dot11wBIPKeyid := 4, dot11wBIPKey := fun _ => Vector.replicate 32 1
    dot11wBIPtxpn := 6, binstallBIPkey := true }

/-- The header of a broadcast deauthentication. -/
def deauthHdr : Vector Byte 24 := (Vector.replicate 24 0xff).set 0 0xc0 (Nat.succ_pos 23)

/-- The deauthentication with its element, `fc1` for the second byte of the frame control field. -/
def deauthFrame (fc1 : Byte) : List Byte :=
  0xc0 :: fc1 :: List.replicate 22 0xff ++ [3, 0] ++ mmeHead .bipCmac128 4 7 ++ List.replicate 8 0

/-- It is sent, and arrives with the retry bit. -/
theorem bip_ok_deauth :
    rtwMgmtXmitframeCoalesce zeroPrimitives (initPriv .bipCmac128) [0xff]
      (deauthHdr.toList ++ [3, 0])
      true = (.secured (deauthFrame 0xff), { initPriv .bipCmac128 with dot11wBIPtxpn := 7 }) ∧
    rtwBipVerify zeroPrimitives .bipCmac128 (List.replicate 32 1) 4 5
      ⟨deauthFrame 0xf7, 44, false, true⟩ = (.success, 7) :=
  ⟨rfl, (bip_ok zeroPrimitives).1 (initPriv .bipCmac128)
    { initPriv .bipCmac128 with dot11wBIPtxpn := 7 }
    [0xff] deauthHdr [3, 0] (deauthFrame 0xff) true ⟨deauthFrame 0xf7, 44, false, true⟩ 5 rfl
    (by decide) ⟨by decide, rfl, rfl, rfl, rfl⟩ (by decide)⟩

/-- A frame that hardware has decrypted is accepted with a wrong MIC, and a protected frame is not
accepted if there is no buffer. -/
theorem deauthFrame_decrypted :
    let wrong : RxFrame := ⟨(deauthFrame 0xff).set 43 1, 44, true, true⟩
    let right : RxFrame := ⟨deauthFrame 0xff, 44, false, false⟩
    (micOk zeroPrimitives .bipCmac128 (List.replicate 32 1) wrong = false ∧
      rtwBipVerify zeroPrimitives .bipCmac128 (List.replicate 32 1) 4 5 wrong = (.success, 7)) ∧
    (micOk zeroPrimitives .bipCmac128 (List.replicate 32 1) right = true ∧
      rtwBipVerify zeroPrimitives .bipCmac128 (List.replicate 32 1) 4 5 right = (.fail, 5)) := by
  decide +kernel

end Rtl88x2cu.Core.Bip
