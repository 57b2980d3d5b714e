import Rtl88x2cu.RxReorder.Ownership
import Rtl88x2cu.RxReorder.Window

/-!
# RX reordering: where the metadata comes from

`phl_rx_reorder` files an MPDU by the station, the TID and the sequence number it finds in the
metadata. On this chip they are filled by `hal_handle_rx_buffer_8822c`
(`phl/hal/rtl8822c/hal_trx_8822c.c`) from the 24 bytes of the receive descriptor. The parser is
cut down from that of another chip: it leaves out the TID, the MAC ID, the receiver address and
the broadcast bits, and keeps eight bits of the sequence number.

`filed_iff_metaOk` says exactly when an MPDU is filed as its own header says, and that a stream
of a block-ack session that arrives in order is then delivered as it arrives.

Buffers are functions from offsets to bytes. Of the metadata, only what `phl_rx_reorder` reads
and what the parser itself needs is kept.
-/

namespace Rtl88x2cu.RxReorder

/-! ## Descriptor and header fields -/

/-- The `n` bytes at `ofs`, least significant byte first. -/
def leWord (b : ℕ → UInt8) (ofs : ℕ) : ℕ → ℕ
  | 0 => 0
  | n + 1 => (b ofs).toNat + 256 * leWord b (ofs + 1) n

/-- `LE_BITS_TO_4BYTE`. -/
def leBitsTo4Byte (b : ℕ → UInt8) (ofs bitOffset bitLen : ℕ) : ℕ :=
  leWord b ofs 4 / 2 ^ bitOffset % 2 ^ bitLen

/-- `LE_BITS_TO_2BYTE`. -/
def leBitsTo2Byte (b : ℕ → UInt8) (ofs bitOffset bitLen : ℕ) : ℕ :=
  leWord b ofs 2 / 2 ^ bitOffset % 2 ^ bitLen

/-- `_os_mem_cpy` of a MAC address. -/
def macAddrAt (b : ℕ → UInt8) (ofs : ℕ) : List UInt8 := (List.range 6).map fun i => b (ofs + i)

section Desc

variable (desc : ℕ → UInt8)

def getRxDescPktLen : ℕ := leBitsTo4Byte desc 0x00 0 14
def getRxDescShift : ℕ := leBitsTo4Byte desc 0x00 24 2
def getRxDescDrvInfoSize : ℕ := leBitsTo4Byte desc 0x00 16 4
def getRxDescC2h : ℕ := leBitsTo4Byte desc 0x08 28 1
def getRxDescQos : ℕ := leBitsTo4Byte desc 0x00 23 1
def getRxDescMf : ℕ := leBitsTo4Byte desc 0x04 27 1
def getRxDescSeq : ℕ := leBitsTo4Byte desc 0x08 0 12
def getRxDescFrag : ℕ := leBitsTo4Byte desc 0x08 12 4

end Desc

section Hdr

variable (hdr : ℕ → UInt8)

/-- `GetFrameType(hdr) == WIFI_DATA_TYPE`. -/
def isDataFrame : Bool := leBitsTo2Byte hdr 0 2 2 = 2
/-- The QoS bit of the subtype. -/
def isQosFrame : Bool := leBitsTo2Byte hdr 0 7 1 = 1
/-- The bit of the subtype that stands for a frame without data. -/
def isNullFrame : Bool := leBitsTo2Byte hdr 0 6 1 = 1
def getToDs : Bool := leBitsTo2Byte hdr 0 8 1 = 1
def getFrDs : Bool := leBitsTo2Byte hdr 0 9 1 = 1
def getMFrag : Bool := leBitsTo2Byte hdr 0 10 1 = 1
def getFragNum : ℕ := leBitsTo2Byte hdr 22 0 4
def getSequence : ℕ := leBitsTo2Byte hdr 22 4 12
/-- `GetTid`: the QoS control field comes behind the fourth address, if there is one. -/
def getTid : ℕ := leBitsTo2Byte hdr (if getToDs hdr && getFrDs hdr then 30 else 24) 0 4
/-- The group bit of the receiver address. -/
def isGroupAddr : Bool := (hdr 4).toNat % 2 = 1

end Hdr

/-! ## `hal_handle_rx_buffer_8822c` -/

/-- `struct rtw_r_meta_data`. -/
structure RMetaData extends RxMeta where
  pktlen : UInt16
  shift : UInt8
  /-- `rpkt_type` is `RX_8822C_DESC_PKT_T_C2H`. -/
  c2h : Bool
  drvInfoSize : UInt8

/-- The metadata of a `phl_rx` out of the pool, where `phl_release_phl_rx` has zeroed it. -/
def RMetaData.zero : RMetaData where
  tid := 0
  seq := 0
  bc := false
  mc := false
  qos := false
  qNull := false
  moreFrag := false
  fragNum := 0
  amsduCut := false
  lastMsdu := false
  addrCamVld := false
  macid := 0
  macAddr := List.replicate 6 0
  ta := List.replicate 6 0
  pktlen := 0
  shift := 0
  c2h := false
  drvInfoSize := 0

/-- `_hal_parsing_rx_wd_8822c` up to its return value. -/
def halParsingRxWdDesc8822c (desc : ℕ → UInt8) (mdata : RMetaData) : RMetaData :=
  let mdata := { mdata with
    pktlen := UInt16.ofNat (getRxDescPktLen desc)
    shift := UInt8.ofNat (getRxDescShift desc)
    c2h := getRxDescC2h desc ≠ 0
    drvInfoSize := UInt8.ofNat (getRxDescDrvInfoSize desc) }
  if mdata.c2h then mdata
  else { mdata with
    moreFrag := getRxDescMf desc ≠ 0
    qos := getRxDescQos desc ≠ 0
    -- cast to eight bits on the way
    seq := (UInt8.ofNat (getRxDescSeq desc)).toUInt16
    fragNum := UInt8.ofNat (getRxDescFrag desc) }

/-- For a packet off the air, the parser also fills in what `phl_rx_reorder` reads. -/
theorem halParsingRxWdDesc8822c_wifi {desc : ℕ → UInt8} {mdata : RMetaData}
    (h : ¬ (halParsingRxWdDesc8822c desc mdata).c2h = true) :
    (halParsingRxWdDesc8822c desc mdata).toRxMeta = { mdata.toRxMeta with
      moreFrag := getRxDescMf desc ≠ 0
      qos := getRxDescQos desc ≠ 0
      seq := (UInt8.ofNat (getRxDescSeq desc)).toUInt16
      fragNum := UInt8.ofNat (getRxDescFrag desc) } := by
  unfold halParsingRxWdDesc8822c at h ⊢
  by_cases hc : getRxDescC2h desc ≠ 0
  · simp [hc] at h
  · simp [hc]

/-- `enum rtw_rx_type`, as far as this chip reports it. -/
inductive RtwRxType where
  | wifi
  | c2h
  deriving DecidableEq, Repr

/-- What `hal_handle_rx_buffer_8822c` fills in: the type of the packet, and where in the buffer
it lies. -/
structure HalRx where
  type : RtwRxType
  virAddr : ℕ
  length : UInt16
  mdata : RMetaData

/-- `hal_handle_rx_buffer_8822c`; `none` is a failure. -/
def halHandleRxBuffer8822c (buf : ℕ → UInt8) (bufLen : ℕ) (mdata : RMetaData) : Option HalRx :=
  let mdata := halParsingRxWdDesc8822c buf mdata
  if mdata.pktlen = 0 then none
  else
    let virAddr := (mdata.shift + mdata.drvInfoSize * 8 + 24).toNat
    if bufLen < virAddr + mdata.pktlen.toNat then none
    else if mdata.c2h then
      some { type := .c2h, virAddr, length := mdata.pktlen, mdata }
    else
      -- `_hal_rx_wlanhdr_check_8822c`
      let mdata := { mdata with ta := macAddrAt buf (virAddr + 10) }
      some { type := .wifi, virAddr, length := mdata.pktlen, mdata }

/-! ## Filing -/

variable {ι ρ : Type}

/-- The station, the TID and the sequence number under which `phl_rx_reorder` files a packet with
this metadata, if it reorders it at all. -/
def filedUnder (lk : Lookup ι ρ) (mdata : RxMeta) : Option (ι × ℕ × ℕ) :=
  if mdata.dontReorder then none
  else (lk.findSta mdata).map fun sta => (sta, mdata.tid.toNat, mdata.seq.toNat)

/-- `phl_rx_reorder` reads the metadata only through `filedUnder`. -/
theorem phlRxReorder_eq_filedUnder [DecidableEq ι] (lk : Lookup ι ρ) (appendFcs : Bool)
    (st : RxPath ι ρ) (pkt : RxPkt ι ρ) (now now' : ℕ) :
    phlRxReorder lk appendFcs st pkt now now' =
      if pkt.mdata.hasFcs appendFcs ∧ pkt.length ≤ 4 then
        some (st.dropFrame pkt)
      else
        let pkt := pkt.removeFcs appendFcs
        match filedUnder lk pkt.mdata with
        | none => some (st.deliver pkt)
        | some (sta, _, _) =>
          rxReorderSta st sta { pkt with txSta := some sta, rxRole := lk.wrole sta } now now' := by
  unfold phlRxReorder filedUnder
  split
  · rfl
  · dsimp only
    split
    · rfl
    · cases lk.findSta (pkt.removeFcs appendFcs).mdata <;> rfl

/-- The station with this transmitter address under the role with this address. -/
def Lookup.staByAddr (lk : Lookup ι ρ) (ra ta : List UInt8) : Option ι :=
  (lk.wroleByAddr ra).bind fun wrole => lk.stainfoByAddr wrole ta

/-- What the header of an MPDU says: a QoS data frame to a single receiver, which is not a
fragment and has data, belongs to its transmitter, TID and sequence number. -/
def headerKey (lk : Lookup ι ρ) (hdr : ℕ → UInt8) : Option (ι × ℕ × ℕ) :=
  if isDataFrame hdr && isQosFrame hdr && !isNullFrame hdr && !isGroupAddr hdr && !getMFrag hdr &&
      getFragNum hdr = 0 then
    (lk.staByAddr (macAddrAt hdr 4) (macAddrAt hdr 10)).map fun sta =>
      (sta, getTid hdr, getSequence hdr)
  else
    none

/-- An MPDU the USB path has parsed, with the tables and the clock as `phl_rx_reorder` finds
them. -/
structure Mpdu (ι ρ : Type) where
  lk : Lookup ι ρ
  id : ℕ
  buf : ℕ → UInt8
  bufLen : ℕ
  now : ℕ
  now' : ℕ
  hal : HalRx
  parsed : halHandleRxBuffer8822c buf bufLen .zero = some hal
  type_eq : hal.type = .wifi

namespace Mpdu

/-- The bytes of the MPDU. -/
def hdr (m : Mpdu ι ρ) : ℕ → UInt8 := fun i => m.buf (m.hal.virAddr + i)

/-- The packet handed to `phl_rx_reorder`. -/
def pkt (m : Mpdu ι ρ) : RxPkt ι ρ where
  id := m.id
  mdata := m.hal.mdata.toRxMeta
  length := m.hal.length.toNat
  txSta := none
  rxRole := none

def filed (m : Mpdu ι ρ) : Option (ι × ℕ × ℕ) := filedUnder m.lk m.pkt.mdata

def key (m : Mpdu ι ρ) : Option (ι × ℕ × ℕ) := headerKey m.lk m.hdr

/-- The call of `phl_rx_reorder`. -/
def event (m : Mpdu ι ρ) (appendFcs : Bool) : RxEvent ι ρ := .rx m.lk appendFcs m.pkt m.now m.now'

/-- The station found by address: under the role whose address has not been filled in. -/
def sta (m : Mpdu ι ρ) : Option ι :=
  m.lk.staByAddr (List.replicate 6 0) (macAddrAt m.hdr 10)

/-- The descriptor and the tables let the MPDU be filed as its header says. -/
def MetaOk (m : Mpdu ι ρ) : Prop :=
  match m.key with
  | some (sta, tid, seq) =>
    getRxDescQos m.buf ≠ 0 ∧ getRxDescMf m.buf = 0 ∧ getRxDescFrag m.buf = 0 ∧
      m.sta = some sta ∧ tid = 0 ∧ seq = getRxDescSeq m.buf % 256
  | none =>
    getRxDescQos m.buf = 0 ∨ getRxDescMf m.buf ≠ 0 ∨ getRxDescFrag m.buf ≠ 0 ∨ m.sta = none

/-- What the parser leaves in the metadata. -/
theorem mdata_eq (m : Mpdu ι ρ) : m.pkt.mdata = { RMetaData.zero.toRxMeta with
    moreFrag := getRxDescMf m.buf ≠ 0
    qos := getRxDescQos m.buf ≠ 0
    seq := (UInt8.ofNat (getRxDescSeq m.buf)).toUInt16
    fragNum := UInt8.ofNat (getRxDescFrag m.buf)
    ta := macAddrAt m.hdr 10 } := by
  have hp := m.parsed
  unfold halHandleRxBuffer8822c at hp
  dsimp only at hp
  split at hp
  · cases hp
  split at hp
  · cases hp
  split at hp
  · have htype := m.type_eq
    rw [← Option.some.inj hp] at htype
    cases htype
  next hc2h =>
    have hhal := Option.some.inj hp
    have hta : macAddrAt m.hdr 10 = macAddrAt m.buf (m.hal.virAddr + 10) := by
      simp only [macAddrAt, hdr, Nat.add_assoc]
    rw [hta]
    unfold pkt
    rw [← hhal, halParsingRxWdDesc8822c_wifi hc2h]

/-- A fragment number has four bits and survives the cast. -/
theorem fragNum_ne_zero (desc : ℕ → UInt8) :
    (UInt8.ofNat (getRxDescFrag desc) != 0) = decide (getRxDescFrag desc ≠ 0) := by
  have hlt : getRxDescFrag desc < UInt8.size :=
    lt_of_lt_of_le (Nat.mod_lt _ (by decide)) (by decide : 2 ^ 4 ≤ UInt8.size)
  rw [Bool.eq_iff_iff, bne_iff_ne, decide_eq_true_eq, ne_eq, ← UInt8.toNat_inj,
    UInt8.toNat_ofNat_of_lt' hlt]
  rfl

/-- An MPDU is filed under TID 0 and eight bits of its sequence number. -/
theorem filed_eq (m : Mpdu ι ρ) : m.filed =
    if getRxDescQos m.buf ≠ 0 ∧ getRxDescMf m.buf = 0 ∧ getRxDescFrag m.buf = 0 then
      m.sta.map fun sta => (sta, 0, getRxDescSeq m.buf % 256)
    else none := by
  have hsta : m.lk.findSta m.pkt.mdata = m.sta := by
    rw [m.mdata_eq]
    unfold Lookup.findSta sta Lookup.staByAddr
    rfl
  have hdont : m.pkt.mdata.dontReorder = !decide (getRxDescQos m.buf ≠ 0 ∧
      getRxDescMf m.buf = 0 ∧ getRxDescFrag m.buf = 0) := by
    rw [m.mdata_eq]
    simp only [RxMeta.dontReorder, RMetaData.zero, fragNum_ne_zero]
    by_cases hq : getRxDescQos m.buf = 0 <;> by_cases hm : getRxDescMf m.buf = 0 <;>
      simp [hq, hm]
  have hseq : m.pkt.mdata.seq.toNat = getRxDescSeq m.buf % 256 := by
    rw [m.mdata_eq]
    simp
  have htid : m.pkt.mdata.tid.toNat = 0 := by
    rw [m.mdata_eq]
    rfl
  simp only [filed, filedUnder, hsta, hdont, hseq, htid]
  split <;> split <;> simp_all

/-- Exactly when an MPDU is filed as its header says. -/
theorem filed_eq_key_iff (m : Mpdu ι ρ) : m.filed = m.key ↔ m.MetaOk := by
  rw [m.filed_eq]
  unfold MetaOk
  cases hkey : m.key with
  | none =>
    simp only [ite_eq_right_iff, Option.map_eq_none_iff]
    tauto
  | some k =>
    obtain ⟨sta, tid, seq⟩ := k
    dsimp only
    rw [Option.ite_none_right_eq_some, Option.map_eq_some_iff]
    constructor
    · rintro ⟨⟨hq, hm, hf⟩, sta', hsta, heq⟩
      obtain ⟨rfl, hrest⟩ := Prod.mk.inj heq
      obtain ⟨rfl, rfl⟩ := Prod.mk.inj hrest
      exact ⟨hq, hm, hf, hsta, rfl, rfl⟩
    · rintro ⟨hq, hm, hf, hsta, rfl, rfl⟩
      exact ⟨⟨hq, hm, hf⟩, sta, hsta, rfl⟩

end Mpdu

/-! ## Streams -/

/-- A session that waits for the next packet and has nothing stored. Its buffer is smaller than
half the sequence space, as the ten bits of the buffer size in a block-ack agreement imply. -/
structure TidAmpduRx.InStep {π : Type} (r : TidAmpduRx π) : Prop where
  wf : r.Wf
  empty : r.storedMpduNum = 0
  head_lt : r.headSeqNum < 0x1000
  bufSize_lt : r.bufSize < 0x800

theorem phlTidAmpduRxAlloc_inStep {π : Type} {ssn tid bufSize : ℕ} (hpos : 0 < bufSize)
    (hlt : bufSize < 0x800) (hssn : ssn < 0x1000) : (phlTidAmpduRxAlloc π ssn tid bufSize).InStep :=
  ⟨phlTidAmpduRxAlloc_wf hpos (by omega), rfl, hssn, hlt⟩

/-- The packet a session in step waits for is delivered. -/
theorem phlManageStaReorderBuf_next {π : Type} (seq : π → ℕ) {c : RxCtx π} (h : c.r.InStep)
    {pkt : π} (hseq : seq pkt = c.r.headSeqNum) (now now' : ℕ) :
    phlManageStaReorderBuf seq c pkt now now' =
      some ({ c with r := { c.r with
        started := true
        headSeqNum := seqInc c.r.headSeqNum } }, false) := by
  have hpos := h.wf.bufSize_pos
  have hlt := h.bufSize_lt
  have hself : seqLess c.r.headSeqNum c.r.headSeqNum = false := by
    rw [seqLess, decide_eq_false_iff_not, seqSub]
    omega
  have hroom : seqLess c.r.headSeqNum ((c.r.headSeqNum + c.r.bufSize) % 0x10000) = true :=
    (seqLess_iff rfl (by omega) (Nat.le_add_right _ c.r.bufSize) (by omega)).mpr (by omega)
  have hnone (i : ℕ) : slot c.r.reorderBuf i = none :=
    slot_eq_none_of_length_held (h.wf.stored ▸ h.empty) i
  have hstarted (started : Bool) :
      manageStarted seq { c with r := { c.r with started } } pkt now now' =
        some ({ c with r := { c.r with
          started
          headSeqNum := seqInc c.r.headSeqNum } }, false) := by
    simp only [manageStarted, makeRoom, hseq, hself, hroom, Bool.false_eq_true, if_false, if_true,
      Option.bind_eq_bind, Option.bind_some, RxCtx.buf, hnone, Option.isSome_none, h.empty,
      and_self]
    rfl
  unfold phlManageStaReorderBuf
  split
  next hst =>
    have hr : c = { c with r := { c.r with started := true } } := by rw [← hst]
    exact (congrArg (fun c => manageStarted seq c pkt now now') hr).trans (hstarted true)
  · rw [hseq, hself]
    exact hstarted true

@[simp]
theorem removeFcs_mdata (pkt : RxPkt ι ρ) (appendFcs : Bool) :
    (pkt.removeFcs appendFcs).mdata = pkt.mdata := by
  unfold RxPkt.removeFcs
  split <;> rfl

section Stream

variable [DecidableEq ι]

theorem rxReorderSta_next {st : RxPath ι ρ} {sta : ι} {tid : Fin 8}
    {r : TidAmpduRx (RxPkt ι ρ)} (hr : st.tidRx (sta, tid) = some r) (h : r.InStep)
    {pkt : RxPkt ι ρ} (htid : pkt.mdata.tid.toNat = tid) (hseq : pkt.seq = r.headSeqNum)
    (now now' : ℕ) :
    rxReorderSta st sta pkt now now' =
      some ((st.leave (sta, tid) { st.enter sta r with r := { r with
        started := true
        headSeqNum := seqInc r.headSeqNum } }).deliver pkt) := by
  have hnext : phlManageStaReorderBuf RxPkt.seq (st.enter sta r) pkt now now' = _ :=
    phlManageStaReorderBuf_next RxPkt.seq h hseq now now'
  unfold rxReorderSta
  split
  next hlt =>
    have hfin : (⟨pkt.mdata.tid.toNat, hlt⟩ : Fin 8) = tid := Fin.ext htid
    dsimp only
    rw [hfin, hr]
    dsimp only
    rw [hnext]
    rfl
  next hlt => exact absurd (htid ▸ tid.isLt) hlt

/-- The packet a session in step waits for goes straight through. -/
theorem phlRxReorder_next {st : RxPath ι ρ} {sta : ι} {tid : Fin 8}
    {r : TidAmpduRx (RxPkt ι ρ)} (hr : st.tidRx (sta, tid) = some r) (h : r.InStep)
    {lk : Lookup ι ρ} {pkt : RxPkt ι ρ}
    (hfiled : filedUnder lk pkt.mdata = some (sta, tid.val, r.headSeqNum)) (hlen : 4 < pkt.length)
    (appendFcs : Bool) (now now' : ℕ) :
    ∃ st', phlRxReorder lk appendFcs st pkt now now' = some st' ∧
      (∃ p, p.id = pkt.id ∧ st'.delivered = st.delivered ++ [p]) ∧ st'.recycled = st.recycled ∧
      st'.tidRx = Function.update st.tidRx (sta, tid)
        (some { r with started := true, headSeqNum := seqInc r.headSeqNum }) := by
  obtain ⟨-, hkey⟩ := Option.ite_none_left_eq_some.mp hfiled
  obtain ⟨sta', -, heq⟩ := Option.map_eq_some_iff.mp hkey
  have htid : pkt.mdata.tid.toNat = tid := (Prod.mk.inj (Prod.mk.inj heq).2).1
  have hseq : pkt.mdata.seq.toNat = r.headSeqNum := (Prod.mk.inj (Prod.mk.inj heq).2).2
  rw [phlRxReorder_eq_filedUnder, if_neg (by omega)]
  simp only [removeFcs_mdata, hfiled]
  rw [rxReorderSta_next hr h (by exact htid) (by exact hseq)]
  refine ⟨_, rfl, ⟨{ pkt.removeFcs appendFcs with
    mdata := pkt.mdata, txSta := some sta, rxRole := lk.wrole sta }, ?_, rfl⟩, rfl, rfl⟩
  exact RxPkt.removeFcs_id pkt appendFcs

/-- A packet that is filed elsewhere leaves a session alone. -/
theorem phlRxReorder_frame {st st' : RxPath ι ρ} {lk : Lookup ι ρ} {appendFcs : Bool}
    {pkt : RxPkt ι ρ} {now now' : ℕ} (h : phlRxReorder lk appendFcs st pkt now now' = some st')
    {k : ι × Fin 8} (hne : ∀ seq, filedUnder lk pkt.mdata ≠ some (k.1, k.2.val, seq)) :
    st'.tidRx k = st.tidRx k := by
  rw [phlRxReorder_eq_filedUnder] at h
  split at h
  · obtain rfl := Option.some.inj h
    rfl
  dsimp only at h
  rw [removeFcs_mdata] at h
  split at h
  · obtain rfl := Option.some.inj h
    rfl
  next sta tid seq hfiled =>
    obtain ⟨-, hkey⟩ := Option.ite_none_left_eq_some.mp hfiled
    obtain ⟨sta', -, heq⟩ := Option.map_eq_some_iff.mp hkey
    obtain ⟨rfl, hrest⟩ := Prod.mk.inj heq
    obtain ⟨rfl, rfl⟩ := Prod.mk.inj hrest
    unfold rxReorderSta at h
    dsimp only at h
    split at h
    next htid =>
      have hk : k ≠ (sta', ⟨pkt.mdata.tid.toNat, htid⟩) := by
        rintro rfl
        exact hne _ hfiled
      split at h
      · obtain rfl := Option.some.inj h
        rfl
      next r hr =>
        obtain ⟨⟨c, kept⟩, -, hc⟩ := Option.bind_eq_some_iff.mp h
        obtain rfl := Option.some.inj hc
        cases kept <;> exact Function.update_of_ne hk _ _
    · obtain rfl := Option.some.inj h
      rfl

/-- By its header, the MPDU belongs to this station and TID. -/
def Mpdu.Of (m : Mpdu ι ρ) (k : ι × Fin 8) : Prop :=
  m.key.map (fun x => (x.1, x.2.1)) = some (k.1, k.2.val)

instance (m : Mpdu ι ρ) (k : ι × Fin 8) : Decidable (m.Of k) :=
  inferInstanceAs (Decidable (_ = _))

/-- The MPDUs of a station and TID come in order and without loss, from `next` on, and each has
room for its header. Other MPDUs may come in between. -/
def InOrder (k : ι × Fin 8) : ℕ → List (Mpdu ι ρ) → Prop
  | _, [] => True
  | next, m :: ms =>
    if m.Of k then
      m.key = some (k.1, k.2.val, next) ∧ 26 ≤ m.pkt.length ∧ InOrder k (seqInc next) ms
    else
      InOrder k next ms

instance (k : ι × Fin 8) : (next : ℕ) → (ms : List (Mpdu ι ρ)) → Decidable (InOrder k next ms)
  | _, [] => isTrue trivial
  | next, m :: ms =>
    haveI := instDecidableInOrder k (seqInc next) ms
    haveI := instDecidableInOrder k next ms
    inferInstanceAs (Decidable (if m.Of k then _ else _))

/-- Each MPDU of a station and TID is delivered by the call that brings it. -/
def DeliveredAtOnce (appendFcs : Bool) (k : ι × Fin 8) : RxPath ι ρ → List (Mpdu ι ρ) → Prop
  | _, [] => True
  | st, m :: ms => ∃ st', rxPathStep st (m.event appendFcs) = some st' ∧
      (m.Of k → (∃ p, p.id = m.id ∧ st'.delivered = st.delivered ++ [p]) ∧
        st'.recycled = st.recycled) ∧
      DeliveredAtOnce appendFcs k st' ms

variable [Fintype ι]

/-- A session that is in step stays in step with a stream that is filed as its headers say. -/
theorem deliveredAtOnce_of_filed (appendFcs : Bool) {k : ι × Fin 8} {ms : List (Mpdu ι ρ)}
    (hfiled : ∀ m ∈ ms, m.filed = m.key) {st : RxPath ι ρ}
    (hwf : ∀ k r, st.tidRx k = some r → r.Wf) {r : TidAmpduRx (RxPkt ι ρ)}
    (hr : st.tidRx k = some r) (hstep : r.InStep) (horder : InOrder k r.headSeqNum ms) :
    DeliveredAtOnce appendFcs k st ms := by
  induction ms generalizing st r with
  | nil => trivial
  | cons m ms ih =>
    rw [List.forall_mem_cons] at hfiled
    unfold InOrder at horder
    set st₀ : RxPath ι ρ := { st with handed := st.handed ++ [m.id] } with hst₀
    have hr₀ : st₀.tidRx k = some r := hr
    have hwf₀ : ∀ k r, st₀.tidRx k = some r → r.Wf := hwf
    split at horder
    next hof =>
      obtain ⟨hkey, hlen, horder⟩ := horder
      obtain ⟨st', hst', hdel, hrec, htid⟩ := phlRxReorder_next hr₀ hstep
        (hfiled.1.trans hkey) (by omega) appendFcs m.now m.now'
      refine ⟨st', hst', fun _ => ⟨hdel, hrec⟩, ?_⟩
      have hnext : ({ r with started := true, headSeqNum := seqInc r.headSeqNum } :
          TidAmpduRx (RxPkt ι ρ)).InStep :=
        ⟨⟨hstep.wf.bufSize_pos, hstep.wf.bufSize_lt, hstep.wf.length_buf, hstep.wf.stored⟩,
          hstep.empty, Nat.mod_lt _ (by decide), hstep.bufSize_lt⟩
      refine ih hfiled.2 ?_ ?_ hnext horder
      · rw [htid]
        exact wf_update hwf k fun r' hr' => Option.some.inj hr' ▸ hnext.wf
      · rw [htid]
        exact Function.update_self _ _ _
    next hof =>
      obtain ⟨st', hst', hwf', -, -⟩ :=
        phlRxReorder_accounted hwf₀ m.lk appendFcs m.pkt m.now m.now'
      refine ⟨st', hst', fun h => absurd h hof, ih hfiled.2 hwf' ?_ hstep horder⟩
      have hsame := phlRxReorder_frame hst' (k := k) fun seq hseq => hof (by
        rw [Mpdu.Of, ← hfiled.1, show m.filed = _ from hseq]
        rfl)
      exact hsame.trans hr

/-- The sessions of every reachable state are well formed. -/
theorem wf_of_run {es : List (RxEvent ι ρ)} {st : RxPath ι ρ}
    (h : run rxPathStep (RxPath.empty ι ρ) es = some st) : ∀ k r, st.tidRx k = some r → r.Wf := by
  have hbounds := run_forall (fun _ _ _ => inBounds_of_rxPathStep) h
  obtain ⟨st', hst', hinv⟩ := run_invariant RxPath.Inv rxPathStep_inv es _ inv_empty
    (guarded_of_forall hbounds _)
  obtain rfl := Option.some.inj (hst'.symm.trans h)
  exact hinv.wf

/-- MPDUs are filed as their headers say, and every stream of a block-ack session that arrives
in order is delivered as it arrives, exactly if for each MPDU that is to be reordered: the
descriptor has the QoS bit and is not that of a fragment, the station is found under a role with
the address zero, the TID is 0, and the sequence number is the low byte of that in the
descriptor. -/
theorem filed_iff_metaOk (appendFcs : Bool) {es : List (RxEvent ι ρ)} {st : RxPath ι ρ}
    (hst : run rxPathStep (RxPath.empty ι ρ) es = some st) (ms : List (Mpdu ι ρ)) :
    ((∀ m ∈ ms, m.filed = m.key) ∧
      ∀ k r, st.tidRx k = some r → r.InStep → InOrder k r.headSeqNum ms →
        DeliveredAtOnce appendFcs k st ms) ↔
    ∀ m ∈ ms, m.MetaOk := by
  constructor
  · rintro ⟨hfiled, -⟩ m hm
    exact m.filed_eq_key_iff.mp (hfiled m hm)
  · intro hok
    have hfiled : ∀ m ∈ ms, m.filed = m.key := fun m hm => m.filed_eq_key_iff.mpr (hok m hm)
    exact ⟨hfiled, fun k r hr hstep horder =>
      deliveredAtOnce_of_filed appendFcs hfiled (wf_of_run hst) hr hstep horder⟩

end Stream

/-! ## Examples -/

/-- An MPDU made of bytes. -/
def Mpdu.ofBytes (lk : Lookup ι ρ) (id : ℕ) (bytes : List UInt8)
    (h : (halHandleRxBuffer8822c (bytes.getD · 0) bytes.length .zero).map HalRx.type =
      some .wifi) : Mpdu ι ρ where
  lk := lk
  id := id
  buf := (bytes.getD · 0)
  bufLen := bytes.length
  now := 0
  now' := 0
  hal := (halHandleRxBuffer8822c (bytes.getD · 0) bytes.length .zero).get
    (by rw [← Option.isSome_map (f := HalRx.type), h]; rfl)
  parsed := (Option.some_get _).symm
  type_eq := by
    obtain ⟨hal, hhal, htype⟩ := Option.map_eq_some_iff.mp h
    simp only [hhal, Option.get_some, htype]

/-- A QoS data frame of 30 bytes behind its descriptor, from station `9` to address `1`. -/
def qosBytes (tid seq : ℕ) : List UInt8 :=
  [30, 0, 0x80, 0, 0, 0, 0, 0, .ofNat seq, .ofNat (seq / 256)] ++ List.replicate 14 0 ++
    [0x88, 0x02, 0, 0, 2, 0, 0, 0, 0, 1, 2, 0, 0, 0, 0, 9, 2, 0, 0, 0, 0, 9] ++
    [.ofNat (seq * 16), .ofNat (seq / 16), .ofNat tid, 0, 0, 0, 0, 0]

/-- One station, under a role with address `1`; with `zero`, there is also a role whose address
has not been set yet. -/
def oneStation (zero : Bool) : Lookup (Fin 1) Unit where
  stainfoByMacid := fun _ => none
  wrole := fun _ => some ()
  wroleByAddr := fun a =>
    if a = [2, 0, 0, 0, 0, 1] ∨ zero = true ∧ a = List.replicate 6 0 then some () else none
  stainfoByAddr := fun _ a => if a = [2, 0, 0, 0, 0, 9] then some 0 else none

/-- Two MPDUs of TID 0 with small numbers. -/
def twoMpdus : List (Mpdu (Fin 1) Unit) :=
  [.ofBytes (oneStation true) 0 (qosBytes 0 7) (by decide +kernel),
    .ofBytes (oneStation true) 1 (qosBytes 0 8) (by decide +kernel)]

theorem filed_iff_metaOk_two :
    ∃ st, run rxPathStep (RxPath.empty (Fin 1) Unit) [.startBa 0 7 0 0 64 true] = some st ∧
      DeliveredAtOnce false (0, 0) st twoMpdus := by
  have hrun : run rxPathStep (RxPath.empty (Fin 1) Unit) [.startBa 0 7 0 0 64 true] =
      some ((RxPath.empty _ _).replace (0, 0) (some (phlTidAmpduRxAlloc _ 7 0 64))) := rfl
  refine ⟨_, hrun, ((filed_iff_metaOk false hrun twoMpdus).mpr ?_).2 (0, 0) _ rfl ?_ ?_⟩
  · have hok : ∀ m ∈ twoMpdus, m.filed = m.key := by decide +kernel
    exact fun m hm => m.filed_eq_key_iff.mp (hok m hm)
  · exact phlTidAmpduRxAlloc_inStep (by decide) (by decide) (by decide)
  · decide +kernel

/-- The station, TID and sequence number are those of the header only by chance: with proper role
addresses an MPDU is not filed at all; and if there is a role without an address, an MPDU of TID
3 with number 256 is filed under TID 0 with number 0, and the second MPDU of a stream that begins
at 255 is dropped as old. -/
theorem filed_by_chance :
    (∃ m : Mpdu (Fin 1) Unit, m.filed = none ∧ m.key = some (0, 0, 5)) ∧
    (∃ m : Mpdu (Fin 1) Unit, m.filed = some (0, 0, 0) ∧ m.key = some (0, 3, 256)) ∧
    ∃ ms : List (Mpdu (Fin 1) Unit), InOrder (0, 0) 255 ms ∧
      (run rxPathStep (RxPath.empty _ _)
        (.startBa 0 255 0 0 64 true :: ms.map (Mpdu.event · false))).map
          (fun st => (st.delivered.map RxPkt.id, st.recycled.map RxPkt.id)) = some ([0], [1]) := by
  refine ⟨⟨.ofBytes (oneStation false) 0 (qosBytes 0 5) (by decide +kernel), by decide +kernel,
    by decide +kernel⟩, ⟨.ofBytes (oneStation true) 0 (qosBytes 3 256) (by decide +kernel),
    by decide +kernel, by decide +kernel⟩,
    ⟨[.ofBytes (oneStation true) 0 (qosBytes 0 255) (by decide +kernel),
      .ofBytes (oneStation true) 1 (qosBytes 0 256) (by decide +kernel)],
      by decide +kernel, by decide +kernel⟩⟩

end Rtl88x2cu.RxReorder
