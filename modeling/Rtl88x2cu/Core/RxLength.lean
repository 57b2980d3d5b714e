import Rtl88x2cu.Core.Amsdu
import Rtl88x2cu.Core.RecvPn
import Rtl88x2cu.Lib.Footprint

/-!
# Lengths on the receive path

`recvframe_chkmic`, `validate_mgmt_protect`, `core_rx_process_msdu` and `wlanhdr_to_ethhdr`
(`core/rtw_recv.c`) take the lengths of headers, IV, ICV and MIC off the length of a frame, in
unsigned numbers, and use the results to read and write. Here they run behind `validate_recv_frame`
and `decryptor`, for a station without mesh, and log what they subtract and the bytes they access.

None of the checks in front of them looks at the length of the frame. `good_rxUses_iff` says which
frames are long enough.
-/

namespace Rtl88x2cu.Core.RxLength

open Bytes Footprint
open Amsdu (RxLlcHdl llcHdlOf snapSize ethAlen ethHlen)

/-! ## Model -/

/-- A subtraction of lengths, and an access to the bytes of the frame. -/
inductive Use where
  | sub (a b : ℕ)
  | read (e : Extent)
  | write (e : Extent)
  deriving DecidableEq, Repr

/-- In a frame of `len` bytes, the subtraction does not wrap around, and the access is inside. -/
def Use.Ok (len : ℕ) : Use → Prop
  | .sub a b => b ≤ a
  | .read e => e.off + e.len ≤ len
  | .write e => e.off + e.len ≤ len

instance (len : ℕ) (u : Use) : Decidable (u.Ok len) :=
  match u with
  | .sub a b => inferInstanceAs (Decidable (b ≤ a))
  | .read e => inferInstanceAs (Decidable (e.off + e.len ≤ len))
  | .write e => inferInstanceAs (Decidable (e.off + e.len ≤ len))

def Good (len : ℕ) (us : List Use) : Prop := ∀ u ∈ us, u.Ok len

instance (len : ℕ) (us : List Use) : Decidable (Good len us) :=
  inferInstanceAs (Decidable (∀ u ∈ us, u.Ok len))

/-- A difference of `u32`. -/
def u32Sub (a b : ℕ) : ℕ := (a + 2 ^ 32 - b % 2 ^ 32) % 2 ^ 32

/-- A difference that is assigned to a `u16`. -/
def u16Sub (a b : ℕ) : ℕ := (a + 2 ^ 16 - b % 2 ^ 16) % 2 ^ 16

/-- A received frame, and what becomes of it besides. -/
structure Rx where
  /-- The bytes from `rx_data` on, and what stands behind the frame. -/
  mem : Mem
  /-- `len` of the frame and `pkt_len` of its attributes. -/
  len : ℕ
  /-- The addresses, the state of the station, the sequence number and the packet number are found
  to be right. -/
  checks : Bool
  /-- The cipher of `GET_ENCRY_ALGO`. -/
  algo : SecurityType
  bdecrypted : Bool
  /-- The bytes after the decryption in software, if that succeeds. -/
  swDecrypt : Option Mem
  /-- `rtw_get_stainfo` finds the transmitter. -/
  stainfo : Bool
  binstallGrpkey : Bool
  /-- The MIC is the one that is computed. -/
  mic : Bool
  portctrl : Bool
  /-- `SEC_IS_BIP_KEY_INSTALLED`. -/
  bipKeyInstalled : Bool
  /-- The transmitter is a station with `WLAN_STA_MFP`, and its `dot118021XPrivacy`. -/
  mfp : Option SecurityType
  /-- There is memory for the body of the management frame. -/
  zmalloc : Bool

/-- The bit `i` of the byte at `off`. -/
def bitAt (mem : Mem) (off i : ℕ) : Bool := (mem off).getLsbD i

section
variable (mem : Mem)

def getFrameType : ℕ := (mem 0).toNat / 4 % 4

def getToDs : Bool := bitAt mem 1 0

def getFrDs : Bool := bitAt mem 1 1

def getPrivacy : Bool := bitAt mem 1 6

def getOrder : Bool := bitAt mem 1 7

/-- `BIT(7)` of the subtype. -/
def getQos : Bool := bitAt mem 0 7

/-- `IS_MCAST` of the receiver address. -/
def isMcastRa : Bool := bitAt mem 4 0

end

/-- `struct rx_pkt_attrib`, as far as it is read here. -/
structure RxPktAttrib where
  hdrlen : ℕ
  ivLen : ℕ
  icvLen : ℕ
  encrypt : SecurityType
  privacy : Bool
  amsdu : Bool

/-- `SET_ICE_IV_LEN`: `iv_len` and `icv_len`. -/
def setIceIvLen : SecurityType → ℕ × ℕ
  | .wep40 | .wep104 => (4, 4)
  | .tkip => (8, 4)
  | .aes => (8, 8)
  | .gcmp | .gcmp256 | .ccmp256 => (8, 16)
  | .sms4 => (18, 16)
  | _ => (0, 0)

/-- What `validate_recv_frame` and `validate_recv_data_frame` make of a data frame. -/
def validateRecvDataFrame (rx : Rx) : RxPktAttrib :=
  let a4Shift := if getToDs rx.mem && getFrDs rx.mem then ethAlen else 0
  let qos := getQos rx.mem
  let privacy := getPrivacy rx.mem
  let encrypt := if privacy then rx.algo else .noPrivacy
  { hdrlen := (if qos then 26 else 24) + a4Shift + if getOrder rx.mem then 4 else 0
    ivLen := (setIceIvLen encrypt).1
    icvLen := (setIceIvLen encrypt).2
    encrypt
    privacy
    amsdu := qos && bitAt rx.mem (24 + a4Shift) 7 }

/-- `recvframe_pull_tail`, for the length. -/
def pullTail (len sz : ℕ) : ℕ := if sz ≤ len then len - sz else len

/-- What `rtw_seccalctkipmic` reads of the header. -/
def tkipmicHeader (mem : Mem) : List Use :=
  if getToDs mem then [.read ⟨16, 6⟩, .read ⟨if getFrDs mem then 24 else 10, 6⟩]
  else [.read ⟨4, 6⟩, .read ⟨if getFrDs mem then 16 else 10, 6⟩]

/-- `recvframe_chkmic`: whether the frame is kept, and its length then. -/
def recvframeChkmic (rx : Rx) (attrib : RxPktAttrib) : Bool × ℕ × List Use :=
  if attrib.encrypt = .tkip then
    if rx.stainfo then
      if isMcastRa rx.mem && !rx.binstallGrpkey then (false, rx.len, [])
      else
        let payload := attrib.hdrlen + attrib.ivLen
        let datalen := u32Sub rx.len (payload + attrib.icvLen + 8)
        (rx.mic, pullTail rx.len 8,
          [.sub rx.len (payload + attrib.icvLen + 8)] ++ tkipmicHeader rx.mem ++
            [.read ⟨payload, datalen⟩, .read ⟨payload + datalen, 8⟩])
    else (true, pullTail rx.len 8, [])
  else (true, rx.len, [])

/-- `wlanhdr_to_ethhdr`. -/
def wlanhdrToEthhdr (attrib : RxPktAttrib) (len : ℕ) (llcHdl : RxLlcHdl) : List Use :=
  let len := if attrib.encrypt ≠ .noPrivacy then pullTail len attrib.icvLen else len
  let rmvLen := attrib.hdrlen + attrib.ivLen + if llcHdl = .remove then snapSize else 0
  let ptr := rmvLen - ethHlen + if llcHdl = .remove then 2 else 0
  .sub len rmvLen ::
    -- `recvframe_pull` fails, or the addresses and the length are written
    if len < ptr then []
    else [.write ⟨ptr, ethAlen⟩, .write ⟨ptr + ethAlen, ethAlen⟩] ++
      if llcHdl = .remove then [] else [.write ⟨ptr + 12, 2⟩]

/-- `core_rx_process_msdu`, on the bytes `mem` with the length `len`. -/
def coreRxProcessMsdu (attrib : RxPktAttrib) (mem : Mem) (len : ℕ) : List Use :=
  let msdu := attrib.hdrlen + attrib.ivLen
  let icvLen := if attrib.encrypt ≠ .noPrivacy then attrib.icvLen else 0
  let msduLen := u16Sub len (msdu + icvLen)
  .sub len (msdu + icvLen) ::
    -- `rtw_recv_llc_parse`
    if msduLen < 8 then wlanhdrToEthhdr attrib len .keep
    else [.read ⟨msdu + snapSize, 2⟩, .read ⟨msdu, snapSize⟩] ++
      wlanhdrToEthhdr attrib len
        (llcHdlOf (bytesAt mem msdu snapSize) (ofBe16 (bytesAt mem (msdu + snapSize) 2)))

/-- A data frame in `rtw_core_rx_process`. An A-MSDU is not for `core_rx_process_msdu`. -/
def dataUses (rx : Rx) : List Use :=
  if !rx.checks then []
  else
    let attrib := validateRecvDataFrame rx
    let decryptor :=
      if attrib.encrypt ≠ .noPrivacy ∧ rx.bdecrypted = false then rx.swDecrypt else some rx.mem
    match decryptor with
    | none => []
    | some mem =>
      let (ok, len, uses) :=
        if attrib.privacy then recvframeChkmic rx attrib else (true, rx.len, [])
      if ok && rx.portctrl && !attrib.amsdu then uses ++ coreRxProcessMsdu attrib mem len else uses

/-- `validate_mgmt_protect`, from the computation of `data_len` on. -/
def mgmtUses (rx : Rx) : List Use :=
  match rx.mfp with
  | none => []
  | some encrypt =>
    if rx.bipKeyInstalled && getPrivacy rx.mem then
      let (ivLen, icvLen) := setIceIvLen encrypt
      let hdrlen := 24
      let dataLen := u32Sub rx.len (hdrlen + ivLen + icvLen)
      .sub rx.len (hdrlen + ivLen + icvLen) ::
        if rx.zmalloc then
          [.read ⟨hdrlen + ivLen, dataLen⟩, .write ⟨hdrlen, dataLen⟩, .sub rx.len (ivLen + icvLen)]
        else []
    else []

/-- What is subtracted and accessed for a received frame. -/
def rxUses (rx : Rx) : List Use :=
  -- the version
  if (rx.mem 0).toNat % 4 ≠ 0 then []
  else if getFrameType rx.mem = 0 then mgmtUses rx
  else if getFrameType rx.mem = 2 then dataUses rx
  else []

/-! ## Conditions -/

/-- The bytes of a frame that are not payload: the header, the IV and the ICV. -/
def RxPktAttrib.overhead (attrib : RxPktAttrib) : ℕ := attrib.hdrlen + attrib.ivLen + attrib.icvLen

/-- `recvframe_chkmic` computes a MIC. -/
def MicComputed (rx : Rx) : Prop :=
  (validateRecvDataFrame rx).encrypt = .tkip ∧ rx.stainfo = true ∧
    (isMcastRa rx.mem = true → rx.binstallGrpkey = true)

/-- A data frame passes the checks and is decrypted. -/
def Admitted (rx : Rx) : Prop :=
  (rx.mem 0).toNat % 4 = 0 ∧ getFrameType rx.mem = 2 ∧ rx.checks = true ∧
    ((validateRecvDataFrame rx).encrypt ≠ .noPrivacy → rx.bdecrypted = false →
      rx.swDecrypt.isSome = true)

/-- The frame is as long as what is taken off it: the header, the IV and the ICV, and the MIC of a
TKIP frame. -/
structure LongEnough (rx : Rx) : Prop where
  mgmt : (rx.mem 0).toNat % 4 = 0 → getFrameType rx.mem = 0 → rx.bipKeyInstalled = true →
    getPrivacy rx.mem = true → ∀ encrypt ∈ rx.mfp,
      24 + (setIceIvLen encrypt).1 + (setIceIvLen encrypt).2 ≤ rx.len
  mic : Admitted rx → MicComputed rx → (validateRecvDataFrame rx).overhead + 8 ≤ rx.len
  msdu : Admitted rx → ¬((validateRecvDataFrame rx).encrypt = .tkip ∧ rx.stainfo = true) →
    rx.portctrl = true → (validateRecvDataFrame rx).amsdu = false →
    (validateRecvDataFrame rx).overhead +
      (if (validateRecvDataFrame rx).encrypt = .tkip then 8 else 0) ≤ rx.len

/-! ## The functions -/

section
variable {rx : Rx} {attrib : RxPktAttrib} {mem : Mem} {len n a b : ℕ} {u : Use} {us us' : List Use}
  {llcHdl : RxLlcHdl}

@[simp]
theorem good_nil : Good len [] := fun _ hu => nomatch hu

@[simp]
theorem good_cons : Good len (u :: us) ↔ u.Ok len ∧ Good len us := List.forall_mem_cons

@[simp]
theorem good_append : Good len (us ++ us') ↔ Good len us ∧ Good len us' := List.forall_mem_append

theorem u32Sub_le (h : b ≤ a) : u32Sub a b ≤ a - b := by
  unfold u32Sub
  omega

theorem u16Sub_le (h : b ≤ a) : u16Sub a b ≤ a - b := by
  unfold u16Sub
  omega

theorem pullTail_eq (h : n ≤ len) : pullTail len n = len - n := if_pos h

/-- A length that `recvframe_pull_tail` leaves alone is less than eight bytes. -/
theorem le_pullTail_iff (h : 24 ≤ a) : a ≤ pullTail len 8 ↔ a + 8 ≤ len := by
  unfold pullTail
  split <;> omega

/-- A frame that is not encrypted has no ICV. -/
theorem icvLen_validateRecvDataFrame (rx : Rx)
    (h : (validateRecvDataFrame rx).encrypt = .noPrivacy) :
    (validateRecvDataFrame rx).icvLen = 0 := by
  change (setIceIvLen (validateRecvDataFrame rx).encrypt).2 = 0
  rw [h]
  rfl

/-- The header has three addresses, and a fourth one if it says so. -/
theorem le_hdrlen_validateRecvDataFrame (rx : Rx) :
    24 + (if getToDs rx.mem && getFrDs rx.mem then 6 else 0) ≤
      (validateRecvDataFrame rx).hdrlen := by
  unfold validateRecvDataFrame ethAlen
  dsimp only
  split <;> split <;> omega

/-- The addresses for the MIC are in the header. -/
theorem good_tkipmicHeader (h : (validateRecvDataFrame rx).hdrlen ≤ len) :
    Good len (tkipmicHeader rx.mem) := by
  have hle := le_hdrlen_validateRecvDataFrame rx
  unfold tkipmicHeader
  cases hto : getToDs rx.mem <;> cases hfr : getFrDs rx.mem <;> simp [hto, hfr, Use.Ok] at hle ⊢ <;>
    omega

theorem good_recvframeChkmic_iff :
    Good rx.len (recvframeChkmic rx (validateRecvDataFrame rx)).2.2 ↔
      (MicComputed rx → (validateRecvDataFrame rx).overhead + 8 ≤ rx.len) := by
  unfold recvframeChkmic MicComputed RxPktAttrib.overhead
  by_cases htkip : (validateRecvDataFrame rx).encrypt = .tkip
  · rw [if_pos htkip]
    by_cases hsta : rx.stainfo = true
    · rw [if_pos hsta]
      split
      next hmcast =>
        rw [Bool.and_eq_true, Bool.not_eq_true'] at hmcast
        refine iff_of_true good_nil fun h => ?_
        rw [h.2.2 hmcast.1] at hmcast
        cases hmcast.2
      next hmcast =>
        have hkey : isMcastRa rx.mem = true → rx.binstallGrpkey = true := by
          intro h
          rw [h] at hmcast
          simpa using hmcast
        rw [imp_iff_right ⟨htkip, hsta, hkey⟩]
        dsimp only
        constructor
        · intro h
          rw [good_append, good_append, good_cons] at h
          exact h.1.1.1
        · intro h
          -- the payload and the MIC end where the ICV begins
          have hdatalen := u32Sub_le h
          rw [good_append, good_append]
          refine ⟨⟨by simpa [Use.Ok] using h, good_tkipmicHeader (by omega)⟩, ?_⟩
          simp [Use.Ok]
          omega
    · rw [if_neg hsta]
      exact iff_of_true good_nil fun h => absurd h.2.1 hsta
  · rw [if_neg htkip]
    exact iff_of_true good_nil fun h => absurd h.1 htkip

/-- The Ethernet header is written over the end of what is in front of the payload. -/
theorem good_wlanhdrToEthhdr (hhdr : 24 ≤ attrib.hdrlen) (hlen : len ≤ n)
    (h : attrib.overhead + (if llcHdl = .remove then 8 else 0) ≤ len) :
    Good n (wlanhdrToEthhdr attrib len llcHdl) := by
  unfold RxPktAttrib.overhead at h
  unfold wlanhdrToEthhdr snapSize ethHlen ethAlen
  have hpull : attrib.hdrlen + attrib.ivLen + (if llcHdl = .remove then 8 else 0) ≤
      (if attrib.encrypt ≠ .noPrivacy then pullTail len attrib.icvLen else len) ∧
      (if attrib.encrypt ≠ .noPrivacy then pullTail len attrib.icvLen else len) ≤ len := by
    by_cases henc : attrib.encrypt = .noPrivacy
    · rw [if_neg (not_not.mpr henc)]
      omega
    · rw [if_pos henc, pullTail_eq (by omega)]
      omega
  generalize (if attrib.encrypt ≠ .noPrivacy then pullTail len attrib.icvLen else len) =
    len' at hpull
  cases llcHdl <;> simp only [reduceCtorEq, if_true, if_false] at hpull ⊢
  · rw [if_neg (by omega)]
    simp [Use.Ok]
    omega
  · rw [if_neg (by omega)]
    simp [Use.Ok]
    omega

theorem good_coreRxProcessMsdu_iff (hhdr : 24 ≤ attrib.hdrlen) (hlen : len ≤ n)
    (hicv : attrib.encrypt = .noPrivacy → attrib.icvLen = 0) :
    Good n (coreRxProcessMsdu attrib mem len) ↔ attrib.overhead ≤ len := by
  have hicv' : (if attrib.encrypt ≠ .noPrivacy then attrib.icvLen else 0) = attrib.icvLen := by
    split
    · rfl
    next h => exact (hicv (not_not.mp h)).symm
  unfold coreRxProcessMsdu
  dsimp only
  rw [hicv', good_cons]
  refine and_iff_left_of_imp fun h => ?_
  have hmsdu : u16Sub len (attrib.hdrlen + attrib.ivLen + attrib.icvLen) ≤
      len - attrib.overhead := u16Sub_le h
  change attrib.overhead ≤ len at h
  split
  · exact good_wlanhdrToEthhdr hhdr hlen (by simpa using h)
  next hllc =>
    -- there are eight bytes to look for a LLC header in
    rw [good_append]
    refine ⟨?_, good_wlanhdrToEthhdr hhdr hlen ?_⟩
    · unfold RxPktAttrib.overhead at hmsdu h
      simp [Use.Ok, snapSize]
      omega
    · split <;> omega

/-! ## Frames -/

theorem good_mgmtUses_iff : Good rx.len (mgmtUses rx) ↔
    (rx.bipKeyInstalled = true → getPrivacy rx.mem = true → ∀ encrypt ∈ rx.mfp,
      24 + (setIceIvLen encrypt).1 + (setIceIvLen encrypt).2 ≤ rx.len) := by
  unfold mgmtUses
  cases hmfp : rx.mfp with
  | none => exact iff_of_true good_nil fun _ _ _ h => nomatch h
  | some encrypt =>
    dsimp only
    simp only [Option.mem_some_iff, forall_eq']
    split
    next hprotected =>
      rw [Bool.and_eq_true] at hprotected
      rw [imp_iff_right hprotected.1, imp_iff_right hprotected.2, good_cons]
      refine and_iff_left_of_imp fun h => ?_
      change 24 + (setIceIvLen encrypt).1 + (setIceIvLen encrypt).2 ≤ rx.len at h
      -- the body is moved over the IV
      have hlen := u32Sub_le h
      split
      · simp [Use.Ok]
        omega
      · exact good_nil
    next hprotected =>
      rw [Bool.and_eq_true] at hprotected
      exact iff_of_true good_nil fun h1 h2 => absurd ⟨h1, h2⟩ hprotected

/-- The length of a frame behind `recvframe_chkmic`. -/
theorem recvframeChkmic_len (rx : Rx) (attrib : RxPktAttrib)
    (hok : (recvframeChkmic rx attrib).1 = true) :
    (recvframeChkmic rx attrib).2.1 =
      if attrib.encrypt = .tkip then pullTail rx.len 8 else rx.len := by
  unfold recvframeChkmic at hok ⊢
  by_cases htkip : attrib.encrypt = .tkip
  · rw [if_pos htkip] at hok ⊢
    rw [if_pos htkip]
    split at hok
    next hsta =>
      rw [if_pos hsta]
      split at hok
      · cases hok
      next hmcast => rw [if_neg hmcast]
    next hsta => rw [if_neg hsta]
  · rw [if_neg htkip, if_neg htkip]

/-- Only a frame with TKIP is changed by `recvframe_chkmic`, and such a frame is protected. -/
theorem recvframeChkmic_of_privacy (rx : Rx) :
    (if (validateRecvDataFrame rx).privacy then recvframeChkmic rx (validateRecvDataFrame rx)
      else (true, rx.len, [])) = recvframeChkmic rx (validateRecvDataFrame rx) := by
  split
  · rfl
  next hprivacy =>
    have hplain : (validateRecvDataFrame rx).encrypt = .noPrivacy := if_neg hprivacy
    unfold recvframeChkmic
    rw [hplain]
    rfl

/-- The uses of a data frame that is decrypted. -/
theorem dataUses_of_admitted (h : Admitted rx) : ∃ mem, dataUses rx =
    (recvframeChkmic rx (validateRecvDataFrame rx)).2.2 ++
      if (recvframeChkmic rx (validateRecvDataFrame rx)).1 && rx.portctrl &&
          !(validateRecvDataFrame rx).amsdu then
        coreRxProcessMsdu (validateRecvDataFrame rx) mem
          (recvframeChkmic rx (validateRecvDataFrame rx)).2.1
      else [] := by
  obtain ⟨-, -, hchecks, hdecrypt⟩ := h
  obtain ⟨mem, hmem⟩ : ∃ mem, (if (validateRecvDataFrame rx).encrypt ≠ .noPrivacy ∧
      rx.bdecrypted = false then rx.swDecrypt else some rx.mem) = some mem := by
    split
    next hsw => exact Option.isSome_iff_exists.mp (hdecrypt hsw.1 hsw.2)
    · exact ⟨rx.mem, rfl⟩
  refine ⟨mem, ?_⟩
  unfold dataUses
  rw [hchecks]
  dsimp only
  rw [hmem, recvframeChkmic_of_privacy]
  simp only [Bool.not_true, Bool.false_eq_true, if_false]
  split
  · rfl
  · exact (List.append_nil _).symm

theorem dataUses_of_not (hver : (rx.mem 0).toNat % 4 = 0) (htype : getFrameType rx.mem = 2)
    (h : ¬Admitted rx) : dataUses rx = [] := by
  unfold dataUses
  cases hchecks : rx.checks with
  | false => rfl
  | true =>
    have hfail : ¬((validateRecvDataFrame rx).encrypt ≠ .noPrivacy → rx.bdecrypted = false →
        rx.swDecrypt.isSome = true) := fun hdec => h ⟨hver, htype, hchecks, hdec⟩
    push Not at hfail
    obtain ⟨henc, hsw, hnone⟩ := hfail
    rw [Bool.not_true, if_neg Bool.false_ne_true]
    dsimp only
    rw [if_pos ⟨henc, hsw⟩, Option.not_isSome_iff_eq_none.mp hnone]

/-- A frame is dropped by `recvframe_chkmic` only if a MIC could have been computed, or a key is
missing. -/
theorem micComputed_of_ok (htkip : (validateRecvDataFrame rx).encrypt = .tkip)
    (hsta : rx.stainfo = true)
    (hok : (recvframeChkmic rx (validateRecvDataFrame rx)).1 = true) : MicComputed rx := by
  refine ⟨htkip, hsta, fun hmcast => ?_⟩
  unfold recvframeChkmic at hok
  rw [if_pos htkip, if_pos hsta] at hok
  split at hok
  · cases hok
  next hkey => simpa [hmcast] using hkey

theorem recvframeChkmic_ok (h : ¬(attrib.encrypt = .tkip ∧ rx.stainfo = true)) :
    (recvframeChkmic rx attrib).1 = true := by
  unfold recvframeChkmic
  split
  next htkip =>
    rw [if_neg fun hsta => h ⟨htkip, hsta⟩]
  · rfl

theorem good_dataUses_iff (hver : (rx.mem 0).toNat % 4 = 0) (htype : getFrameType rx.mem = 2) :
    Good rx.len (dataUses rx) ↔
      (Admitted rx → MicComputed rx → (validateRecvDataFrame rx).overhead + 8 ≤ rx.len) ∧
      (Admitted rx → ¬((validateRecvDataFrame rx).encrypt = .tkip ∧ rx.stainfo = true) →
        rx.portctrl = true → (validateRecvDataFrame rx).amsdu = false →
        (validateRecvDataFrame rx).overhead +
          (if (validateRecvDataFrame rx).encrypt = .tkip then 8 else 0) ≤ rx.len) := by
  by_cases hadm : Admitted rx
  swap
  · rw [dataUses_of_not hver htype hadm]
    exact iff_of_true good_nil ⟨fun h => absurd h hadm, fun h => absurd h hadm⟩
  rw [imp_iff_right hadm, imp_iff_right hadm]
  obtain ⟨mem, huses⟩ := dataUses_of_admitted hadm
  rw [huses, good_append, good_recvframeChkmic_iff]
  refine and_congr_right fun hmic => ?_
  have hhdr : 24 ≤ (validateRecvDataFrame rx).hdrlen :=
    Nat.le_trans (Nat.le_add_right _ _) (le_hdrlen_validateRecvDataFrame rx)
  have hpull : pullTail rx.len 8 ≤ rx.len := by
    unfold pullTail
    split <;> omega
  have hmsdu {len : ℕ} (hlen : len ≤ rx.len) :
      Good rx.len (coreRxProcessMsdu (validateRecvDataFrame rx) mem len) ↔
        (validateRecvDataFrame rx).overhead ≤ len :=
    good_coreRxProcessMsdu_iff hhdr hlen (icvLen_validateRecvDataFrame rx)
  by_cases htkip : (validateRecvDataFrame rx).encrypt = .tkip ∧ rx.stainfo = true
  · -- with the MIC off, the frame is long enough
    refine iff_of_true ?_ fun h => absurd htkip h
    split
    next hcond =>
      rw [Bool.and_eq_true, Bool.and_eq_true] at hcond
      have hlong := hmic (micComputed_of_ok htkip.1 htkip.2 hcond.1.1)
      rw [recvframeChkmic_len rx _ hcond.1.1, if_pos htkip.1, hmsdu hpull, pullTail_eq (by omega)]
      omega
    · exact good_nil
  · have hok := recvframeChkmic_ok htkip
    rw [imp_iff_right htkip, recvframeChkmic_len rx _ hok, hok, Bool.true_and]
    split
    next hcond =>
      rw [Bool.and_eq_true, Bool.not_eq_true'] at hcond
      rw [imp_iff_right hcond.1, imp_iff_right hcond.2]
      by_cases henc : (validateRecvDataFrame rx).encrypt = .tkip
      · rw [if_pos henc, if_pos henc, hmsdu hpull]
        exact le_pullTail_iff (Nat.le_trans hhdr (by unfold RxPktAttrib.overhead; omega))
      · rw [if_neg henc, if_neg henc, hmsdu (Nat.le_refl _), Nat.add_zero]
    next hcond =>
      rw [Bool.and_eq_true, Bool.not_eq_true'] at hcond
      exact iff_of_true good_nil fun hport hamsdu => absurd ⟨hport, hamsdu⟩ hcond

/-- **Every subtraction of lengths stays in its unsigned type, and every access in the frame, if and
only if** the frame is as long as its header, IV and ICV, and its MIC. -/
theorem good_rxUses_iff (rx : Rx) : Good rx.len (rxUses rx) ↔ LongEnough rx := by
  unfold rxUses
  split
  next hver =>
    -- nothing is done with a frame of another version
    exact iff_of_true good_nil
      ⟨fun h => absurd h hver, fun h => absurd h.1 hver, fun h => absurd h.1 hver⟩
  next hver =>
    replace hver := not_not.mp hver
    split
    next htype =>
      have hdata : ¬Admitted rx := fun h => absurd (htype.symm.trans h.2.1) (by decide)
      rw [good_mgmtUses_iff]
      exact ⟨fun h => ⟨fun _ _ => h, fun h => absurd h hdata, fun h => absurd h hdata⟩,
        fun h => h.mgmt hver htype⟩
    next hmgmt =>
      split
      next htype =>
        rw [good_dataUses_iff hver htype]
        exact ⟨fun h => ⟨fun _ h => absurd h hmgmt, h.1, h.2⟩, fun h => ⟨h.mic, h.msdu⟩⟩
      next hdata =>
        exact iff_of_true good_nil
          ⟨fun _ h => absurd h hmgmt, fun h => absurd h.2.1 hdata, fun h => absurd h.2.1 hdata⟩

/-- A data frame of 24 bytes from an access point, not protected, whose header says that it has a
field more (+HTC). -/
def shortFrame : Rx where
  mem i := if i = 0 then 0x08 else if i = 1 then 0x82 else 0
  len := 24
  checks := true
  algo := .noPrivacy
  bdecrypted := false
  swDecrypt := none
  stainfo := true
  binstallGrpkey := false
  mic := true
  portctrl := true
  bipKeyInstalled := false
  mfp := none
  zmalloc := true

/-- The length of its MSDU is 65532, and a LLC header is looked for behind the frame. -/
theorem not_good_shortFrame : ¬Good shortFrame.len (rxUses shortFrame) ∧
    Use.sub 24 28 ∈ rxUses shortFrame ∧ Use.read ⟨34, 2⟩ ∈ rxUses shortFrame ∧
    Use.write ⟨26, 2⟩ ∈ rxUses shortFrame := by
  decide

end

end Rtl88x2cu.Core.RxLength
