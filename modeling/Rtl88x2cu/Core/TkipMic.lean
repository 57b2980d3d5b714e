import Rtl88x2cu.Core.SecMic
import Rtl88x2cu.EthAddr

/-!
# The message integrity code of a frame

The transmitter (`core_wlan_fill_tkip_mic`, `core/rtw_xmit.c`) computes the code of an MSDU from the
addresses and the priority in its attributes, the LLC bytes behind the header, and the pieces of the
payload. The receiver (`recvframe_chkmic`, `core/rtw_recv.c`) computes it from the frame, where the
addresses stand at places that depend on ToDS and FromDS.

* `rtwMakeWlanhdr` makes the header of the frame; `Whdr` are the addresses it chooses.
* `txMessage` and `rxMessage` are the two messages.
* `tkipMic_ok` says that both sides compute the code of Michael over their message, and that the two
  messages are the same if and only if the header names the source and the priority of the MSDU.
-/

namespace Rtl88x2cu.Core.TkipMic

open Bytes Michael SecMic

/-! ## The transmitter -/

/-- The octets of an address. -/
def addrBytes (a : EthAddr) : List Byte := [a.o0, a.o1, a.o2, a.o3, a.o4, a.o5]

/-- The state of the MLME, with `direct_link` and `wds` of the packet: `update_attrib` sets
`direct_link` in station state only, and `wds` in station state without it or in AP state. -/
inductive Mode where
  | station
  | stationDirect
  | stationWds
  | ap
  | apWds
  | adhoc
  deriving DecidableEq, Repr

/-- `XATTRIB_GET_WDS`. -/
def Mode.wds : Mode → Bool
  | stationWds => true
  | apWds => true
  | _ => false

/-- What a header depends on besides the attributes of the packet; `qosOption` is that of
`qospriv`. -/
structure Mlme where
  mode : Mode
  bssid : EthAddr
  qosOption : Bool
  deriving DecidableEq, Repr

/-- `struct pkt_attrib`. -/
structure PktAttrib where
  dst : EthAddr
  src : EthAddr
  ra : EthAddr
  ta : EthAddr
  qosEn : Bool
  priority : Byte
  hdrlen : ℕ
  ivLen : ℕ
  subtype : Byte
  eosp : Bool
  ackPolicy : BitVec 2
  mdata : Bool
  seqnum : BitVec 12
  etherType : BitVec 16
  deriving DecidableEq, Repr

/-- `WIFI_DATA_TYPE`. -/
def wifiDataType : Byte := 0x08

/-- `WIFI_QOS_DATA_TYPE`. -/
def wifiQosDataType : Byte := 0x88

/-- `set_qos`. The priority is that of `tos_to_up`, and of `qos_acm` in station mode. -/
def setQos (mode : Mode) (userPriority : Fin 8) (attrib : PktAttrib) : PktAttrib :=
  { attrib with
    priority := BitVec.ofNat 8 userPriority
    hdrlen := if mode.wds then 32 else 26
    subtype := wifiQosDataType }

/-- `update_attrib`, where it chooses between a header with and one without QoS. -/
def updateAttribQos (mlme : Mlme) (staQosOption : Bool) (userPriority : Fin 8)
    (attrib : PktAttrib) : PktAttrib :=
  let attrib := { attrib with
    hdrlen := if mlme.mode.wds then 30 else 24
    subtype := wifiDataType
    qosEn := staQosOption
    priority := 0 }
  match mlme.mode with
  | .station | .stationWds =>
    if mlme.qosOption then setQos mlme.mode userPriority attrib else attrib
  | _ => if attrib.qosEn then setQos mlme.mode userPriority attrib else attrib

/-- The address fields of a header, and whether it has a QoS field. -/
structure Whdr where
  toDs : Bool
  frDs : Bool
  addr1 : EthAddr
  addr2 : EthAddr
  addr3 : EthAddr
  addr4 : Option EthAddr
  qosOption : Bool

/-- `rtw_make_wlanhdr`, the case distinction. -/
def whdr (mlme : Mlme) (attrib : PktAttrib) : Whdr :=
  match mlme.mode with
  | .stationDirect => ⟨false, false, attrib.dst, attrib.src, mlme.bssid, none, attrib.qosEn⟩
  | .stationWds => ⟨true, true, attrib.ra, attrib.ta, attrib.dst, some attrib.src, mlme.qosOption⟩
  | .station => ⟨true, false, mlme.bssid, attrib.ta, attrib.dst, none, mlme.qosOption⟩
  | .apWds => ⟨true, true, attrib.ra, attrib.ta, attrib.dst, some attrib.src, attrib.qosEn⟩
  | .ap => ⟨false, true, attrib.dst, mlme.bssid, attrib.src, none, attrib.qosEn⟩
  | .adhoc => ⟨false, false, attrib.dst, attrib.ta, mlme.bssid, none, attrib.qosEn⟩

/-- A bit. -/
def bit (b : Bool) : Byte := if b then 1 else 0

/-- The second octet of the frame control: `SetToDs`, `SetFrDs`, `SetMData` and `SetPrivacy`. -/
def frameCtl (w : Whdr) (mdata : Bool) : Byte :=
  bit w.toDs ||| bit w.frDs <<< 1 ||| bit mdata <<< 5 ||| (0x40 : Byte)

/-- The first octet of the QoS field: `SetPriority`, `SetEOSP` and `SetAckpolicy`. -/
def qosCtl (attrib : PktAttrib) : Byte :=
  (attrib.priority &&& (0x0f : Byte)) ||| bit attrib.eosp <<< 4 |||
    attrib.ackPolicy.setWidth 8 <<< 5

/-- `rtw_make_wlanhdr`, for a data frame that is to be encrypted. -/
def rtwMakeWlanhdr (mlme : Mlme) (attrib : PktAttrib) : List Byte :=
  let w := whdr mlme attrib
  let hdr := List.replicate 64 0
  let hdr := memcpy hdr 0 [attrib.subtype, frameCtl w attrib.mdata]
  let hdr := memcpy hdr 4 (addrBytes w.addr1)
  let hdr := memcpy hdr 10 (addrBytes w.addr2)
  let hdr := memcpy hdr 16 (addrBytes w.addr3)
  let hdr := w.addr4.elim hdr fun addr4 => memcpy hdr 24 (addrBytes addr4)
  let hdr := if w.qosOption then memcpy hdr (attrib.hdrlen - 2) [qosCtl attrib, 0] else hdr
  memcpy hdr 22 (le 2 (attrib.seqnum.toNat * 16))

/-- `rtw_put_snap`. -/
def rtwPutSnap (hProto : BitVec 16) : List Byte :=
  [0xaa, 0xaa, 0x03, 0x00, 0x00, if hProto = 0x8137 ∨ hProto = 0x80f3 then 0xf8 else 0x00] ++
    be16 hProto.toNat

/-- `core_wlan_fill_head`, the head of a request for a frame of one fragment. -/
def coreWlanFillHead (mlme : Mlme) (attrib : PktAttrib) (iv : List Byte) : List Byte :=
  (rtwMakeWlanhdr mlme attrib).take attrib.hdrlen ++ (iv ++ rtwPutSnap attrib.etherType)

/-- A transmit request; its pieces are given by their bytes. -/
structure XmitReq where
  pktCnt : ℕ
  pktList : List (List Byte)

/-- `priority` of the transmitter. -/
def txPriority (attrib : PktAttrib) : List Byte :=
  [if attrib.qosEn then attrib.priority else 0, 0, 0, 0]

/-- `core_wlan_fill_tkip_mic`: the code. It is `none` for a key that has not been set. -/
def coreWlanFillTkipMic (key : Vector Byte 16) (attrib : PktAttrib) (wlhdr : List Byte)
    (txreq : XmitReq) : Option (List Byte) :=
  if key = .replicate 16 0 then none
  else
    let micdata := rtwSecmicsetkey key.toList
    let micdata := rtwSecmicappend micdata (addrBytes attrib.dst)
    let micdata := rtwSecmicappend micdata (addrBytes attrib.src)
    let micdata := rtwSecmicappend micdata (txPriority attrib)
    let micdata := rtwSecmicappend micdata (slice wlhdr (attrib.hdrlen + attrib.ivLen) 8)
    -- the passes `i` with `1 <= i < pkt_cnt - 1`, from the second piece on
    let micdata := ((txreq.pktList.drop 1).take (txreq.pktCnt - 1 - 1)).foldl rtwSecmicappend micdata
    (rtwSecgetmic micdata).map Prod.fst

/-! ## The receiver -/

/-- The bits of the second octet of the frame control. -/
def getToDs (frame : List Byte) : Bool := (frame.getD 1 0).getLsbD 0

def getFrDs (frame : List Byte) : Bool := (frame.getD 1 0).getLsbD 1

def getOrder (frame : List Byte) : Bool := (frame.getD 1 0).getLsbD 7

/-- `pattrib->qos`, a bit of the subtype. -/
def getQos (frame : List Byte) : Bool := (frame.getD 0 0).getLsbD 7

/-- `a4_shift`. -/
def a4Shift (frame : List Byte) : ℕ := if getToDs frame && getFrDs frame then 6 else 0

/-- `validate_recv_data_frame`, `pattrib->priority`. -/
def rxPriority (frame : List Byte) : Byte :=
  if getQos frame then frame.getD (24 + a4Shift frame) 0 &&& 0x0f else 0

/-- `validate_recv_data_frame`, `pattrib->hdrlen`. -/
def rxHdrlen (frame : List Byte) : ℕ :=
  (if getQos frame then 26 else 24) + a4Shift frame + if getOrder frame then 4 else 0

/-- `rtw_seccalctkipmic`. -/
def rtwSeccalctkipmic (key header data : List Byte) (pri : Byte) : Option (List Byte) :=
  let micdata := rtwSecmicsetkey key
  let micdata :=
    if getToDs header then
      let micdata := rtwSecmicappend micdata (slice header 16 6)
      if getFrDs header then rtwSecmicappend micdata (slice header 24 6)
      else rtwSecmicappend micdata (slice header 10 6)
    else
      let micdata := rtwSecmicappend micdata (slice header 4 6)
      if getFrDs header then rtwSecmicappend micdata (slice header 16 6)
      else rtwSecmicappend micdata (slice header 10 6)
  let micdata := rtwSecmicappend micdata [pri, 0, 0, 0]
  let micdata := rtwSecmicappend micdata data
  (rtwSecgetmic micdata).map Prod.fst

/-- `SET_ICE_IV_LEN` for TKIP. -/
def rxIvLen : ℕ := 8

def rxIcvLen : ℕ := 4

/-- `recvframe_chkmic`: the code that is computed, and the one that the frame has. -/
def recvframeChkmic (key : Vector Byte 16) (frame : List Byte) : Option (List Byte × List Byte) :=
  let datalen := frame.length - rxHdrlen frame - rxIvLen - rxIcvLen - 8
  let payload := rxHdrlen frame + rxIvLen
  (rtwSeccalctkipmic key.toList frame (slice frame payload datalen) (rxPriority frame)).map
    fun miccode => (miccode, slice frame (payload + datalen) 8)

/-! ## The two messages -/

section Messages

variable {key : Vector Byte 16} {mlme : Mlme} {attrib : PktAttrib}

/-- The message of the transmitter. -/
def txMessage (attrib : PktAttrib) (msdu : List Byte) : List Byte :=
  addrBytes attrib.dst ++ (addrBytes attrib.src ++ (txPriority attrib ++ msdu))

/-- The source that a header names. -/
def Whdr.sa (w : Whdr) : EthAddr :=
  if w.toDs then if w.frDs then w.addr4.getD w.addr2 else w.addr2
  else if w.frDs then w.addr3 else w.addr2

/-- The destination that a header names. -/
def Whdr.da (w : Whdr) : EthAddr := if w.toDs then w.addr3 else w.addr1

/-- The priority that a header names. -/
def headerPriority (mlme : Mlme) (attrib : PktAttrib) : Byte :=
  if (whdr mlme attrib).qosOption then attrib.priority &&& 0x0f else 0

/-- The message of the receiver. -/
def rxMessage (mlme : Mlme) (attrib : PktAttrib) (msdu : List Byte) : List Byte :=
  addrBytes (whdr mlme attrib).da ++ (addrBytes (whdr mlme attrib).sa ++
    ([headerPriority mlme attrib, 0, 0, 0] ++ msdu))

/-- The frame that is received: the pieces of the request one behind the other, with an ICV. -/
def airFrame (wlhdr : List Byte) (payload : List (List Byte)) (mic icv : List Byte) : List Byte :=
  wlhdr ++ (payload.flatten ++ (mic ++ icv))

/-- The transmitter computes the code of its message. -/
theorem coreWlanFillTkipMic_eq (hkey : key ≠ .replicate 16 0) (hdr iv tail : List Byte)
    (payload : List (List Byte)) (hhdr : hdr.length = attrib.hdrlen) (hiv : iv.length = attrib.ivLen) :
    coreWlanFillTkipMic key attrib (hdr ++ (iv ++ rtwPutSnap attrib.etherType))
      ⟨payload.length + 2, (hdr ++ (iv ++ rtwPutSnap attrib.etherType)) :: (payload ++ [tail])⟩ =
      some (micBytes (michael (keyState key.toList)
        (txMessage attrib (rtwPutSnap attrib.etherType ++ payload.flatten)))) := by
  have hllc : slice (hdr ++ (iv ++ rtwPutSnap attrib.etherType)) (attrib.hdrlen + attrib.ivLen) 8 =
      rtwPutSnap attrib.etherType := by
    rw [← List.append_assoc]
    exact slice_last (by rw [List.length_append, hhdr, hiv]) rfl
  have hloop : (((hdr ++ (iv ++ rtwPutSnap attrib.etherType)) :: (payload ++ [tail])).drop 1).take
      (payload.length + 2 - 1 - 1) = payload := List.take_left
  have hflat : ∀ micdata, payload.foldl rtwSecmicappend micdata =
      rtwSecmicappend micdata payload.flatten := fun _ => List.foldl_flatten.symm
  rw [coreWlanFillTkipMic, if_neg hkey, hllc, hloop]
  simp only [hflat, ← rtwSecmicappend_append, rtwSecgetmic_append, Option.map_some,
    List.append_assoc, txMessage]

/-! ## The header -/

/-- The bytes of a header. -/
def hdrBytes (w : Whdr) (attrib : PktAttrib) : List Byte :=
  [attrib.subtype, frameCtl w attrib.mdata, 0, 0] ++ (addrBytes w.addr1 ++ (addrBytes w.addr2 ++
    (addrBytes w.addr3 ++ (le 2 (attrib.seqnum.toNat * 16) ++
      (w.addr4.elim [] addrBytes ++ if w.qosOption then [qosCtl attrib, 0] else [])))))

/-- Write into zeros behind what has been written, with a gap of `k` bytes. -/
theorem memcpy_zeros {a src : List Byte} {n off : ℕ} (k : ℕ) (hoff : a.length + k = off)
    (hlen : k + src.length ≤ n) :
    memcpy (a ++ List.replicate n 0) off src =
      (a ++ List.replicate k 0 ++ src) ++ List.replicate (n - k - src.length) 0 := by
  have hn : n = k + (src.length + (n - k - src.length)) := by omega
  nth_rewrite 1 [hn]
  rw [List.replicate_add, List.replicate_add, ← List.append_assoc]
  rw [memcpy_middle (by rw [List.length_append, List.length_replicate, hoff])
    List.length_replicate, List.append_assoc _ src]

theorem length_addrBytes (a : EthAddr) : (addrBytes a).length = 6 := rfl

/-- The bytes up to the third address. -/
def addrPart (w : Whdr) (attrib : PktAttrib) : List Byte :=
  [attrib.subtype, frameCtl w attrib.mdata, 0, 0] ++ (addrBytes w.addr1 ++ (addrBytes w.addr2 ++
    addrBytes w.addr3))

theorem length_addrPart (w : Whdr) (attrib : PktAttrib) : (addrPart w attrib).length = 22 := rfl

/-- The first four writes. -/
theorem memcpy_addrPart (w : Whdr) (attrib : PktAttrib) :
    memcpy (memcpy (memcpy (memcpy (List.replicate 64 0) 0
      [attrib.subtype, frameCtl w attrib.mdata]) 4 (addrBytes w.addr1)) 10 (addrBytes w.addr2)) 16
      (addrBytes w.addr3) = addrPart w attrib ++ List.replicate 42 0 := by
  have hfc : ∀ fc : List Byte, fc.length = 2 →
      memcpy (List.replicate 64 0) 0 fc = fc ++ List.replicate 62 0 := fun fc hfc => by
    have h : memcpy ([] ++ List.replicate 64 0) 0 fc =
        [] ++ List.replicate 0 0 ++ fc ++ List.replicate (64 - 0 - fc.length) 0 :=
      memcpy_zeros 0 rfl (by omega)
    rwa [hfc] at h
  have haddr : ∀ {a : List Byte} {n : ℕ} (k off : ℕ) (addr : EthAddr), a.length + k = off →
      k + 6 ≤ n → memcpy (a ++ List.replicate n 0) off (addrBytes addr) =
        (a ++ List.replicate k 0 ++ addrBytes addr) ++ List.replicate (n - k - 6) 0 :=
    fun k _ _ hoff hlen => memcpy_zeros k hoff hlen
  rw [hfc _ rfl, haddr 2 4 _ (by rfl) (by decide), haddr 0 10 _ (by rfl) (by decide),
    haddr 0 16 _ (by rfl) (by decide)]
  rfl

/-- What stands behind the sequence control. -/
def tailPart (w : Whdr) (attrib : PktAttrib) : List Byte :=
  w.addr4.elim [] addrBytes ++ if w.qosOption then [qosCtl attrib, 0] else []

theorem hdrBytes_eq (w : Whdr) (attrib : PktAttrib) :
    hdrBytes w attrib =
      addrPart w attrib ++ (le 2 (attrib.seqnum.toNat * 16) ++ tailPart w attrib) := by
  simp only [hdrBytes, addrPart, tailPart, List.append_assoc]

theorem length_tailPart (w : Whdr) (attrib : PktAttrib) :
    (tailPart w attrib).length =
      (if w.addr4.isSome then 6 else 0) + if w.qosOption then 2 else 0 := by
  rw [tailPart, List.length_append]
  congr 1
  · cases w.addr4 <;> rfl
  · split <;> rfl

/-- The writes of the fourth address and of the QoS field leave a gap for the sequence control. -/
theorem memcpy_tailPart (w : Whdr) (attrib : PktAttrib)
    (h : attrib.hdrlen = 24 + (tailPart w attrib).length) :
    ∃ n, (if w.qosOption then
        memcpy (w.addr4.elim (addrPart w attrib ++ List.replicate 42 0) fun addr4 =>
          memcpy (addrPart w attrib ++ List.replicate 42 0) 24 (addrBytes addr4))
          (attrib.hdrlen - 2) [qosCtl attrib, 0]
      else w.addr4.elim (addrPart w attrib ++ List.replicate 42 0) fun addr4 =>
          memcpy (addrPart w attrib ++ List.replicate 42 0) 24 (addrBytes addr4)) =
      addrPart w attrib ++ ([0, 0] ++ (tailPart w attrib ++ List.replicate n 0)) := by
  rw [length_tailPart] at h
  have hpart := length_addrPart w attrib
  rw [tailPart]
  generalize addrPart w attrib = part at hpart
  generalize hqc : [qosCtl attrib, 0] = qc
  have hqclen : qc.length = 2 := by rw [← hqc]; rfl
  generalize w.addr4 = addr4 at h
  generalize w.qosOption = qosOption at h
  rcases addr4 with _ | addr4 <;> rcases qosOption with _ | _ <;>
    simp only [Option.elim_none, Option.elim_some, Option.isSome_none, Option.isSome_some,
      Bool.false_eq_true, if_false, if_true] at h ⊢
  case none.false => exact ⟨40, rfl⟩
  case none.true =>
    rw [h, memcpy_zeros 2 (by omega) (by omega)]
    exact ⟨42 - 2 - qc.length, by simp only [List.append_assoc]; rfl⟩
  case some.false =>
    have haddr := length_addrBytes addr4
    rw [memcpy_zeros 2 (by omega) (by omega)]
    exact ⟨42 - 2 - (addrBytes addr4).length, by
      simp only [List.append_assoc, List.append_nil]; rfl⟩
  case some.true =>
    have haddr := length_addrBytes addr4
    rw [memcpy_zeros 2 (by omega) (by omega), memcpy_zeros 0 (by
      rw [List.length_append, List.length_append, List.length_replicate]; omega) (by omega)]
    exact ⟨42 - 2 - (addrBytes addr4).length - 0 - qc.length, by
      simp only [List.append_assoc]; rfl⟩

/-- The header that is made. -/
theorem take_rtwMakeWlanhdr
    (h : attrib.hdrlen = 24 + (tailPart (whdr mlme attrib) attrib).length) :
    (rtwMakeWlanhdr mlme attrib).take attrib.hdrlen = hdrBytes (whdr mlme attrib) attrib := by
  rw [rtwMakeWlanhdr]
  generalize whdr mlme attrib = w at h
  obtain ⟨n, hn⟩ := memcpy_tailPart w attrib h
  have hpart := length_addrPart w attrib
  simp only [memcpy_addrPart, hn]
  -- the sequence control comes last, into the two bytes that are left in between
  rw [memcpy_middle (b := [0, 0]) hpart (length_le 2 _).symm, hdrBytes_eq, ← List.append_assoc (le 2 _),
    ← List.append_assoc (addrPart w attrib)]
  apply List.take_left'
  rw [List.length_append, List.length_append, length_le, hpart, h]
  omega

/-- What `update_attrib` promises to `rtw_make_wlanhdr`. -/
structure HdrReady (w : Whdr) (attrib : PktAttrib) : Prop where
  hdrlen_eq : attrib.hdrlen = 24 + (tailPart w attrib).length
  subtype_eq : attrib.subtype = if w.qosOption then wifiQosDataType else wifiDataType
  addr4_eq : w.addr4.isSome = (w.toDs && w.frDs)

theorem updateAttribQos_hdrReady (mlme : Mlme) (staQosOption : Bool) (userPriority : Fin 8)
    (attrib : PktAttrib) :
    HdrReady (whdr mlme (updateAttribQos mlme staQosOption userPriority attrib))
      (updateAttribQos mlme staQosOption userPriority attrib) := by
  obtain ⟨mode, bssid, qosOption⟩ := mlme
  constructor
  · rw [length_tailPart]
    cases mode <;> cases qosOption <;> cases staQosOption <;> rfl
  · cases mode <;> cases qosOption <;> cases staQosOption <;> rfl
  · cases mode <;> rfl

/-! ## The fields that the receiver reads -/

theorem getLsbD_frameCtl (w : Whdr) (mdata : Bool) :
    (frameCtl w mdata).getLsbD 0 = w.toDs ∧ (frameCtl w mdata).getLsbD 1 = w.frDs ∧
      (frameCtl w mdata).getLsbD 7 = false := by
  rw [frameCtl]
  cases w.toDs <;> cases w.frDs <;> cases mdata <;> decide

theorem qosCtl_and (attrib : PktAttrib) : qosCtl attrib &&& 0x0f = attrib.priority &&& 0x0f := by
  have heosp : bit attrib.eosp <<< 4 &&& 0x0f = 0 := by cases attrib.eosp <;> rfl
  have hack : ∀ ackPolicy : BitVec 2, ackPolicy.setWidth 8 <<< 5 &&& (0x0f : Byte) = 0 := by decide
  rw [qosCtl, BitVec.and_or_distrib_right, BitVec.and_or_distrib_right, heosp, hack,
    BitVec.and_assoc, BitVec.and_self]
  exact (BitVec.or_zero).trans BitVec.or_zero

section Receiver

variable {w : Whdr} (h : HdrReady w attrib) (rest : List Byte)

theorem getToDs_hdrBytes : getToDs (hdrBytes w attrib ++ rest) = w.toDs :=
  (getLsbD_frameCtl w attrib.mdata).1

theorem getFrDs_hdrBytes : getFrDs (hdrBytes w attrib ++ rest) = w.frDs :=
  (getLsbD_frameCtl w attrib.mdata).2.1

theorem getOrder_hdrBytes : getOrder (hdrBytes w attrib ++ rest) = false :=
  (getLsbD_frameCtl w attrib.mdata).2.2

include h

theorem getQos_hdrBytes : getQos (hdrBytes w attrib ++ rest) = w.qosOption := by
  have hsub : getQos (hdrBytes w attrib ++ rest) = attrib.subtype.getLsbD 7 := rfl
  rw [hsub, h.subtype_eq]
  cases w.qosOption <;> decide

theorem a4Shift_hdrBytes : a4Shift (hdrBytes w attrib ++ rest) = if w.addr4.isSome then 6 else 0 := by
  rw [a4Shift, getToDs_hdrBytes, getFrDs_hdrBytes, h.addr4_eq]

theorem rxHdrlen_hdrBytes : rxHdrlen (hdrBytes w attrib ++ rest) = attrib.hdrlen := by
  rw [rxHdrlen, getQos_hdrBytes h, a4Shift_hdrBytes h, getOrder_hdrBytes, h.hdrlen_eq,
    length_tailPart]
  cases w.qosOption <;> simp only [Bool.false_eq_true, if_false, if_true] <;> omega

/-- The priority is behind the fourth address, where there is one. -/
theorem rxPriority_hdrBytes :
    rxPriority (hdrBytes w attrib ++ rest) = if w.qosOption then attrib.priority &&& 0x0f else 0 := by
  rw [rxPriority, getQos_hdrBytes h, a4Shift_hdrBytes h]
  rcases hqos : w.qosOption with _ | _
  case false => rfl
  case true =>
    rw [if_pos rfl, if_pos rfl, ← qosCtl_and]
    congr 1
    have hlen : (addrPart w attrib ++ (le 2 (attrib.seqnum.toNat * 16) ++
        w.addr4.elim [] addrBytes)).length = 24 + if w.addr4.isSome then 6 else 0 := by
      rw [List.length_append, List.length_append, length_addrPart, length_le]
      cases w.addr4 <;> rfl
    have hbytes : hdrBytes w attrib ++ rest = (addrPart w attrib ++
        (le 2 (attrib.seqnum.toNat * 16) ++ w.addr4.elim [] addrBytes)) ++
        ([qosCtl attrib] ++ (0 :: rest)) := by
      rw [hdrBytes_eq, tailPart, hqos, if_pos rfl]
      simp only [List.append_assoc, List.cons_append, List.nil_append]
    have hslice := slice_middle (c := 0 :: rest) hlen (show [qosCtl attrib].length = 1 from rfl)
    rw [getD_eq_slice, hbytes, hslice]
    rfl

/-- The destination and the source, where the receiver finds them. -/
theorem rtwSeccalctkipmic_hdrBytes (key data : List Byte) (pri : Byte) :
    rtwSeccalctkipmic key (hdrBytes w attrib ++ rest) data pri =
      some (micBytes (michael (keyState key)
        (addrBytes w.da ++ (addrBytes w.sa ++ ([pri, 0, 0, 0] ++ data))))) := by
  have haddr1 : slice (hdrBytes w attrib ++ rest) 4 6 = addrBytes w.addr1 := rfl
  have haddr2 : slice (hdrBytes w attrib ++ rest) 10 6 = addrBytes w.addr2 := rfl
  have haddr3 : slice (hdrBytes w attrib ++ rest) 16 6 = addrBytes w.addr3 := rfl
  have haddr4 : ∀ addr4, w.addr4 = some addr4 →
      slice (hdrBytes w attrib ++ rest) 24 6 = addrBytes addr4 := fun addr4 h4 => by
    rw [hdrBytes_eq, tailPart, h4, Option.elim_some]
    rfl
  have h4 := h.addr4_eq
  rw [rtwSeccalctkipmic, getToDs_hdrBytes, getFrDs_hdrBytes, Whdr.da, Whdr.sa]
  rcases hto : w.toDs with _ | _ <;> rcases hfr : w.frDs with _ | _ <;>
    simp only [Bool.false_eq_true, if_false, if_true]
  case true.true =>
    rw [hto, hfr] at h4
    obtain ⟨addr4, h4⟩ := Option.isSome_iff_exists.mp h4
    simp only [haddr3, haddr4 addr4 h4, h4, Option.getD_some, ← rtwSecmicappend_append,
      rtwSecgetmic_append, Option.map_some, List.append_assoc]
  all_goals
    simp only [haddr1, haddr2, haddr3, ← rtwSecmicappend_append, rtwSecgetmic_append,
      Option.map_some, List.append_assoc]

end Receiver

/-- The receiver computes the code of its message, and finds the one that was sent. -/
theorem recvframeChkmic_airFrame (key : Vector Byte 16) (h : HdrReady (whdr mlme attrib) attrib)
    {iv mic icv : List Byte} (hiv : iv.length = 8) (hmic : mic.length = 8) (hicv : icv.length = 4)
    (payload : List (List Byte)) :
    recvframeChkmic key (airFrame (coreWlanFillHead mlme attrib iv) payload mic icv) =
      some (micBytes (michael (keyState key.toList)
        (rxMessage mlme attrib (rtwPutSnap attrib.etherType ++ payload.flatten))), mic) := by
  generalize hmsdu : rtwPutSnap attrib.etherType ++ payload.flatten = msdu
  have hframe : airFrame (coreWlanFillHead mlme attrib iv) payload mic icv =
      hdrBytes (whdr mlme attrib) attrib ++ (iv ++ (msdu ++ (mic ++ icv))) := by
    rw [airFrame, coreWlanFillHead, take_rtwMakeWlanhdr h.hdrlen_eq, ← hmsdu]
    simp only [List.append_assoc]
  have hhdr : (hdrBytes (whdr mlme attrib) attrib).length = attrib.hdrlen := by
    rw [hdrBytes_eq, List.length_append, List.length_append, length_addrPart, length_le,
      h.hdrlen_eq]
    omega
  have hwlhdr : (hdrBytes (whdr mlme attrib) attrib ++ iv).length = attrib.hdrlen + rxIvLen := by
    rw [List.length_append, hhdr, hiv, rxIvLen]
  have hdatalen : (hdrBytes (whdr mlme attrib) attrib ++ (iv ++ (msdu ++ (mic ++ icv)))).length -
      attrib.hdrlen - rxIvLen - rxIcvLen - 8 = msdu.length := by
    simp only [List.length_append, hhdr, hiv, hmic, hicv, rxIvLen, rxIcvLen]
    omega
  have hdata : slice (hdrBytes (whdr mlme attrib) attrib ++ (iv ++ (msdu ++ (mic ++ icv))))
      (attrib.hdrlen + rxIvLen) msdu.length = msdu := by
    rw [← List.append_assoc]
    exact slice_middle hwlhdr rfl
  have hframemic : slice (hdrBytes (whdr mlme attrib) attrib ++ (iv ++ (msdu ++ (mic ++ icv))))
      (attrib.hdrlen + rxIvLen + msdu.length) 8 = mic := by
    rw [← List.append_assoc, ← List.append_assoc]
    exact slice_middle (by rw [List.length_append, hwlhdr]) hmic
  rw [hframe, recvframeChkmic]
  simp only [rxHdrlen_hdrBytes h, rxPriority_hdrBytes h, hdatalen, hdata, hframemic,
    rtwSeccalctkipmic_hdrBytes h, Option.map_some, rxMessage, headerPriority]

/-! ## The comparison of the messages -/

/-- The receiver finds the destination of the MSDU. -/
theorem whdr_da (mlme : Mlme) (attrib : PktAttrib) : (whdr mlme attrib).da = attrib.dst := by
  rw [whdr]
  cases mlme.mode <;> rfl

/-- The header names the source of the MSDU, and the priority that the transmitter takes. -/
structure Named (mlme : Mlme) (staQosOption : Bool) (userPriority : Fin 8) (attrib : PktAttrib) :
    Prop where
  ta_eq : mlme.mode = .station ∨ mlme.mode = .adhoc → attrib.ta = attrib.src
  priority_eq : mlme.mode = .station ∨ mlme.mode = .stationWds → mlme.qosOption = true →
    staQosOption = false → userPriority = 0

theorem addrBytes_injective : Function.Injective addrBytes := by
  rintro ⟨a0, a1, a2, a3, a4, a5⟩ ⟨b0, b1, b2, b3, b4, b5⟩ h
  simpa [addrBytes] using h

/-- Two messages are the same if their sources and their priorities are. -/
theorem rxMessage_eq_iff (mlme : Mlme) (attrib : PktAttrib) (msdu : List Byte) :
    txMessage attrib msdu = rxMessage mlme attrib msdu ↔
      attrib.src = (whdr mlme attrib).sa ∧
        (if attrib.qosEn then attrib.priority else 0) = headerPriority mlme attrib := by
  rw [txMessage, rxMessage, whdr_da, List.append_cancel_left_eq]
  constructor
  · intro h
    obtain ⟨hsa, h⟩ := List.append_inj h rfl
    obtain ⟨hpri, -⟩ := List.append_inj h rfl
    exact ⟨addrBytes_injective hsa, (List.cons.inj hpri).1⟩
  · rintro ⟨hsa, hpri⟩
    rw [txPriority, hsa, hpri]

theorem sa_eq_iff (mlme : Mlme) (attrib : PktAttrib) :
    attrib.src = (whdr mlme attrib).sa ↔
      (mlme.mode = .station ∨ mlme.mode = .adhoc → attrib.ta = attrib.src) := by
  rw [whdr]
  cases mlme.mode <;> simp [Whdr.sa, eq_comm]

/-- A user priority is not cut by the QoS field. -/
theorem ofNat_and_userPriority :
    ∀ userPriority : Fin 8, BitVec.ofNat 8 userPriority &&& 15#8 =
      BitVec.ofNat 8 userPriority := by decide

theorem ofNat_userPriority_eq_zero :
    ∀ userPriority : Fin 8, 0#8 = BitVec.ofNat 8 userPriority ↔ userPriority = 0 := by decide

variable {staQosOption : Bool} {userPriority : Fin 8}

/-- The two priorities are those of the station and of the MLME. -/
theorem priority_eq_iff (mlme : Mlme) (attrib : PktAttrib) :
    (if (updateAttribQos mlme staQosOption userPriority attrib).qosEn then
        (updateAttribQos mlme staQosOption userPriority attrib).priority else 0) =
        headerPriority mlme (updateAttribQos mlme staQosOption userPriority attrib) ↔
      (mlme.mode = .station ∨ mlme.mode = .stationWds → mlme.qosOption = true →
        staQosOption = false → userPriority = 0) := by
  obtain ⟨mode, bssid, qosOption⟩ := mlme
  cases mode <;> cases qosOption <;> cases staQosOption <;>
    simp [updateAttribQos, setQos, headerPriority, whdr, ofNat_and_userPriority,
      ofNat_userPriority_eq_zero]

theorem rxMessage_eq_iff_named (mlme : Mlme) (staQosOption : Bool) (userPriority : Fin 8)
    (attrib : PktAttrib) (msdu : List Byte) :
    txMessage (updateAttribQos mlme staQosOption userPriority attrib) msdu =
        rxMessage mlme (updateAttribQos mlme staQosOption userPriority attrib) msdu ↔
      Named mlme staQosOption userPriority attrib := by
  have hattrib : (updateAttribQos mlme staQosOption userPriority attrib).src = attrib.src ∧
      (updateAttribQos mlme staQosOption userPriority attrib).ta = attrib.ta := by
    obtain ⟨mode, bssid, qosOption⟩ := mlme
    cases mode <;> cases qosOption <;> cases staQosOption <;> exact ⟨rfl, rfl⟩
  rw [rxMessage_eq_iff, sa_eq_iff, priority_eq_iff, hattrib.1, hattrib.2]
  exact ⟨fun ⟨hsa, hpri⟩ => ⟨hsa, hpri⟩, fun h => ⟨h.ta_eq, h.priority_eq⟩⟩

/-- The messages differ in one word at most: in the priority, or in the last four octets of the
source. -/
def OneWord (mlme : Mlme) (attrib : PktAttrib) : Prop :=
  attrib.src = (whdr mlme attrib).sa ∨
    (if attrib.qosEn then attrib.priority else 0) = headerPriority mlme attrib ∧
      attrib.src.o0 = (whdr mlme attrib).sa.o0 ∧ attrib.src.o1 = (whdr mlme attrib).sa.o1

/-- Such messages have the same code only if they are the same. -/
theorem michael_rxMessage_inj (s : State) {mlme : Mlme} {attrib : PktAttrib}
    (hword : OneWord mlme attrib) {msdu : List Byte}
    (h : michael s (txMessage attrib msdu) = michael s (rxMessage mlme attrib msdu)) :
    txMessage attrib msdu = rxMessage mlme attrib msdu := by
  rw [rxMessage_eq_iff]
  rw [txMessage, rxMessage, whdr_da] at h
  rcases hword with hsa | ⟨hpri, h0, h1⟩
  case inl =>
    refine ⟨hsa, ?_⟩
    rw [← hsa, ← List.append_assoc, ← List.append_assoc (addrBytes attrib.dst)] at h
    exact (michael_word_inj s (a := addrBytes attrib.dst ++ addrBytes attrib.src)
      (Nat.mod_eq_zero_of_dvd ⟨3, rfl⟩) msdu h).1
  case inr =>
    refine ⟨?_, hpri⟩
    generalize attrib.src = src at h h0 h1 ⊢
    generalize (whdr mlme attrib).sa = sa at h h0 h1 ⊢
    obtain ⟨s0, s1, s2, s3, s4, s5⟩ := src
    obtain ⟨a0, a1, a2, a3, a4, a5⟩ := sa
    obtain rfl : s0 = a0 := h0
    obtain rfl : s1 = a1 := h1
    rw [txPriority, hpri] at h
    obtain ⟨rfl, rfl, rfl, rfl⟩ := michael_word_inj s (a := addrBytes attrib.dst ++ [s0, s1])
      (Nat.mod_eq_zero_of_dvd ⟨2, rfl⟩) ([headerPriority mlme attrib, 0, 0, 0] ++ msdu) h
    rfl

/-- The code of a message that is given in chunks is that of Michael. The transmitter and the receiver
compute it over their messages, which are the same if and only if the header names the source and
the priority of the MSDU. Then the two codes are the same; and where the messages can differ in one
word only, they are the same in no other case. -/
theorem tkipMic_ok (key : Vector Byte 16) (hkey : key ≠ .replicate 16 0) (mlme : Mlme)
    (staQosOption : Bool) (userPriority : Fin 8) (attrib : PktAttrib) (hivLen : attrib.ivLen = 8)
    {iv mic icv : List Byte} (hiv : iv.length = 8) (hmic : mic.length = 8) (hicv : icv.length = 4)
    (payload : List (List Byte)) (tail : List Byte) :
    (∀ chunks : List (List Byte),
      rtwSecgetmic (chunks.foldl rtwSecmicappend (rtwSecmicsetkey key.toList)) =
        some (micBytes (michael (keyState key.toList) chunks.flatten),
          rtwSecmicsetkey key.toList)) ∧
    ∃ attrib' head msdu tx rx,
      attrib' = updateAttribQos mlme staQosOption userPriority attrib ∧
      head = coreWlanFillHead mlme attrib' iv ∧
      msdu = rtwPutSnap attrib.etherType ++ payload.flatten ∧
      coreWlanFillTkipMic key attrib' head ⟨payload.length + 2, head :: (payload ++ [tail])⟩ =
        some tx ∧
      recvframeChkmic key (airFrame head payload mic icv) = some (rx, mic) ∧
      tx = micBytes (michael (keyState key.toList) (txMessage attrib' msdu)) ∧
      rx = micBytes (michael (keyState key.toList) (rxMessage mlme attrib' msdu)) ∧
      (txMessage attrib' msdu = rxMessage mlme attrib' msdu ↔
        Named mlme staQosOption userPriority attrib) ∧
      (Named mlme staQosOption userPriority attrib → tx = rx) ∧
      (OneWord mlme attrib' → (tx = rx ↔ Named mlme staQosOption userPriority attrib)) := by
  have hready := updateAttribQos_hdrReady mlme staQosOption userPriority attrib
  have hnamed := rxMessage_eq_iff_named mlme staQosOption userPriority attrib (rtwPutSnap attrib.etherType ++ payload.flatten)
  obtain ⟨hattribIv, hetherType⟩ :
      (updateAttribQos mlme staQosOption userPriority attrib).ivLen = attrib.ivLen ∧
        (updateAttribQos mlme staQosOption userPriority attrib).etherType = attrib.etherType := by
    obtain ⟨mode, bssid, qosOption⟩ := mlme
    cases mode <;> cases qosOption <;> cases staQosOption <;> exact ⟨rfl, rfl⟩
  generalize updateAttribQos mlme staQosOption userPriority attrib = attrib' at *
  have hhdr : (hdrBytes (whdr mlme attrib') attrib').length = attrib'.hdrlen := by
    rw [hdrBytes_eq, List.length_append, List.length_append, length_addrPart, length_le,
      hready.hdrlen_eq]
    omega
  have htx := coreWlanFillTkipMic_eq hkey (hdrBytes (whdr mlme attrib') attrib') iv tail payload
    hhdr (by rw [hattribIv, hivLen, hiv])
  rw [← take_rtwMakeWlanhdr hready.hdrlen_eq] at htx
  have hrx := recvframeChkmic_airFrame key hready hiv hmic hicv payload
  rw [hetherType] at htx hrx
  refine ⟨secmic_chunks key.toList, attrib', _, _, _, _, rfl, rfl, rfl, ?_, hrx, rfl, rfl, hnamed,
    fun h => ?_, fun hword => ⟨fun h => ?_, fun h => ?_⟩⟩
  · rw [coreWlanFillHead, hetherType]
    exact htx
  · rw [hnamed.mpr h]
  · exact hnamed.mp (michael_rxMessage_inj _ hword (micBytes_injective h))
  · rw [hnamed.mpr h]

end Messages

/-! ## A source that is not in the header -/

section Station

/-- The MSDU of another station, which is sent by a station in its own name. -/
def stationAttrib : PktAttrib where
  dst := ⟨2, 0, 0, 0, 0, 1⟩
  src := ⟨2, 0, 0, 0, 0, 2⟩
  ra := ⟨2, 0, 0, 0, 0, 9⟩
  ta := ⟨2, 0, 0, 0, 0, 3⟩
  qosEn := true
  priority := 0
  hdrlen := 0
  ivLen := 8
  subtype := 0
  eosp := false
  ackPolicy := 0
  mdata := false
  seqnum := 5
  etherType := 0x0800

def stationMlme : Mlme := ⟨.station, ⟨2, 0, 0, 0, 0, 9⟩, true⟩

/-- The attributes as they are when the header is made, for a frame of priority 5. -/
def stationFrame : PktAttrib := updateAttribQos stationMlme true 5 stationAttrib

def stationHead : List Byte := coreWlanFillHead stationMlme stationFrame [0, 0, 0, 32, 0, 0, 0, 0]

/-- The code that is sent. -/
def stationMic : List Byte := [249, 17, 162, 77, 163, 147, 235, 220]

/-- The receiver finds another code than the one that the transmitter has computed and sent. -/
theorem station_mic_ne :
    coreWlanFillTkipMic (.replicate 16 7) stationFrame stationHead
      ⟨4, [stationHead, [1, 2, 3], [4, 5, 6, 7], []]⟩ = some stationMic ∧
    recvframeChkmic (.replicate 16 7) (airFrame stationHead [[1, 2, 3], [4, 5, 6, 7]] stationMic
      [0, 0, 0, 0]) = some ([79, 202, 147, 199, 216, 109, 133, 119], stationMic) := by
  constructor <;> decide +kernel

/-- A frame of the station's own. -/
theorem tkipMic_ok_station :
    ∃ attrib' head msdu tx rx,
      attrib' = updateAttribQos stationMlme true 5 { stationAttrib with src := stationAttrib.ta } ∧
      head = coreWlanFillHead stationMlme attrib' (.replicate 8 0) ∧
      msdu = rtwPutSnap 0x0800 ++ [[1, 2, 3], [4, 5, 6, 7]].flatten ∧
      coreWlanFillTkipMic (.replicate 16 7) attrib' head ⟨4, [head, [1, 2, 3], [4, 5, 6, 7], []]⟩ =
        some tx ∧
      recvframeChkmic (.replicate 16 7) (airFrame head [[1, 2, 3], [4, 5, 6, 7]] stationMic
        (.replicate 4 0)) = some (rx, stationMic) ∧ tx = rx := by
  obtain ⟨-, attrib', head, msdu, tx, rx, hattrib, hhead, hmsdu, htx, hrx, -, -, -, hnamed, -⟩ :=
    tkipMic_ok (.replicate 16 7) (by decide) stationMlme true 5
      { stationAttrib with src := stationAttrib.ta } rfl (List.length_replicate (a := 0))
      (show stationMic.length = 8 from rfl) (List.length_replicate (a := 0))
      [[1, 2, 3], [4, 5, 6, 7]] []
  exact ⟨attrib', head, msdu, tx, rx, hattrib, hhead, hmsdu, htx, hrx,
    hnamed ⟨fun _ => rfl, fun _ _ h => Bool.noConfusion h⟩⟩

end Station

end Rtl88x2cu.Core.TkipMic
