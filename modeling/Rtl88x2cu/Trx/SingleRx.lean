import Mathlib.Algebra.Order.Ring.Nat
import Mathlib.Data.List.Forall2
import Rtl88x2cu.Lib.Footprint
import Rtl88x2cu.Lib.WhileLoop

/-!
# Parsing a USB transfer

`phl_get_single_rx` (`phl/hci/phl_trx_usb.c`) goes over the units of a transfer, a descriptor with
driver info and a packet each, with `hal_handle_rx_buffer_8822c` and its helpers
(`phl/hal/rtl8822c/hal_trx_8822c.c`). Here it runs on the bytes: every function also returns the
extents that it reads. The pools that packets and buffers come from are those of `RxBuf` and
`DrvInfo`, and what `process_c2h` reads of a C2H packet is left out.

The end of a packet is compared with the end of the transfer, but only after the words of the
descriptor and the driver info have been read, and the 802.11 header is read however short the
packet is. `phlGetSingleRx_iff` says for which transfers all reads are inside.
-/

namespace Rtl88x2cu.Trx.SingleRx

open Bytes Footprint

/-! ## Model -/

/-- `RX_DESC_S_SIZE_8822C`. -/
def rxDescSSize : ℕ := 24

def rtwMaxEthPktLen : ℕ := 1536

/-- `FRAME_OFFSET_ADDRESS2`. -/
def frameOffsetAddress2 : ℕ := 10

/-- `LE_BITS_TO_4BYTE` and `LE_BITS_TO_2BYTE`, for the bytes that are read. -/
def leBits (bs : List Byte) (bitOffset bitLen : ℕ) : ℕ := ofLe bs / 2 ^ bitOffset % 2 ^ bitLen

section
variable (desc : List Byte)

/-- The getters of the descriptor. -/
def rxDescBits (word bitOffset bitLen : ℕ) : ℕ := leBits (slice desc word 4) bitOffset bitLen

def getRxDescPktLen : ℕ := rxDescBits desc 0x00 0 14

def getRxDescDrvInfoSize : ℕ := rxDescBits desc 0x00 16 4

def getRxDescShift : ℕ := rxDescBits desc 0x00 24 2

def getRxDescC2h : ℕ := rxDescBits desc 0x08 28 1

/-- The fields of `struct rtw_r_meta_data` that are filled for a packet of type
`RX_8822C_DESC_PKT_T_WIFI` only. `seq` is cast to 8 bits. -/
structure WifiMetaData where
  ppduCnt : ℕ
  swDec : Bool
  hwDec : Bool
  ampdu : ℕ
  ampduEndPkt : ℕ
  amsdu : ℕ
  crc32 : ℕ
  icverr : ℕ
  moreData : ℕ
  moreFrag : ℕ
  qos : ℕ
  seq : ℕ
  fragNum : ℕ
  deriving DecidableEq, Repr

def wifiMetaData : WifiMetaData where
  ppduCnt := rxDescBits desc 0x08 29 2
  swDec := rxDescBits desc 0x00 27 1 != 0
  hwDec := rxDescBits desc 0x00 27 1 == 0
  ampdu := rxDescBits desc 0x04 15 1
  ampduEndPkt := rxDescBits desc 0x10 8 1
  amsdu := rxDescBits desc 0x04 13 1
  crc32 := rxDescBits desc 0x00 14 1
  icverr := rxDescBits desc 0x00 15 1
  moreData := rxDescBits desc 0x04 26 1
  moreFrag := rxDescBits desc 0x04 27 1
  qos := rxDescBits desc 0x00 23 1
  seq := rxDescBits desc 0x08 0 12 % 256
  fragNum := rxDescBits desc 0x08 12 4

/-- `struct rtw_r_meta_data`, without `drv_info` and `ta`. The packet is of type
`RX_8822C_DESC_PKT_T_C2H` if `wifi` is `none`. -/
structure RMetaData where
  pktlen : ℕ
  shift : ℕ
  drvInfoSize : ℕ
  physt : ℕ
  wifi : Option WifiMetaData
  deriving DecidableEq, Repr

def rMetaData : RMetaData where
  pktlen := getRxDescPktLen desc
  shift := getRxDescShift desc
  drvInfoSize := getRxDescDrvInfoSize desc
  physt := rxDescBits desc 0x00 26 1
  wifi := if getRxDescC2h desc = 0 then some (wifiMetaData desc) else none

end

/-- `struct rtw_phl_rx_pkt` with its first packet. -/
structure RxPkt where
  mdata : RMetaData
  /-- The copy of the driver info. -/
  drvInfo : Option (List Byte)
  /-- `ta` of the meta data. -/
  ta : Option (List Byte)
  /-- Where in the buffer the packet is. -/
  virAddr : ℕ
  length : ℕ
  /-- `os_netbuf_len` and the bytes that have been copied into the network buffer. -/
  netbuf : Option (ℕ × List Byte) := none

/-- The bytes of the packet, which are still in the buffer if there is no network buffer. -/
def RxPkt.data (mem : Mem) (pkt : RxPkt) : List Byte :=
  match pkt.netbuf with
  | some (_, bytes) => bytes
  | none => bytesAt mem pkt.virAddr pkt.length

/-- What a turn of the loop finds: whether there is a free `phl_rx`, memory for the driver info, and
a network buffer. -/
structure Turn where
  phlRx : Bool
  kmalloc : Bool
  netbuf : Bool

structure Env where
  /-- `CONFIG_PHL_USB_RX_AGGREGATION`. -/
  usbRxAggregation : Bool
  turn : ℕ → Turn

def Env.alignOffset (env : Env) (pktOffset : ℕ) : ℕ :=
  if env.usbRxAggregation then (pktOffset + 7) / 8 * 8 else pktOffset

/-- `_hal_parsing_rx_wd_8822c`. It fails if `pktlen` is zero. -/
def parsingRxWd (mem : Mem) (t : Turn) (p : ℕ) : RMetaData × Option (List Byte) × List Extent :=
  let mdata := rMetaData (bytesAt mem p rxDescSSize)
  let copied := decide (mdata.drvInfoSize ≠ 0) && t.kmalloc
  (mdata,
    if copied then some (bytesAt mem (p + rxDescSSize) (mdata.drvInfoSize * 8)) else none,
    -- the words 0 and 2, the driver info, and for a WIFI packet the words 1, 2 and 4
    [⟨p, 4⟩, ⟨p + 8, 4⟩] ++
      (if copied then [⟨p + rxDescSSize, mdata.drvInfoSize * 8⟩] else []) ++
      if mdata.wifi.isSome then [⟨p + 4, 4⟩, ⟨p + 8, 4⟩, ⟨p + 16, 4⟩] else [])

/-- What `_hal_rx_wlanhdr_check_8822c` reads of an 802.11 header. -/
def wlanhdrReads (hdr : ℕ) : List Extent :=
  [⟨hdr, 2⟩, ⟨hdr + 22, 2⟩, ⟨hdr + frameOffsetAddress2, 6⟩]

/-- `hal_parsing_rx_wd_8822c` and `hal_handle_rx_buffer_8822c`. -/
def halHandleRxBuffer (mem : Mem) (t : Turn) (buf : ℕ) (bufLen : ℤ) : Option RxPkt × List Extent :=
  let (mdata, drvInfo, reads) := parsingRxWd mem t buf
  let virAddr := buf + (mdata.shift + mdata.drvInfoSize * 8 + rxDescSSize) % 256
  if mdata.pktlen = 0 then (none, reads)
  else if (buf : ℤ) + bufLen < (virAddr + mdata.pktlen : ℕ) then (none, reads)
  else if mdata.wifi.isSome then
    (some ⟨mdata, drvInfo, some (bytesAt mem (virAddr + frameOffsetAddress2) 6), virAddr,
      mdata.pktlen, none⟩, reads ++ wlanhdrReads virAddr)
  else (some ⟨mdata, drvInfo, none, virAddr, mdata.pktlen, none⟩, reads)

/-- The network buffer that `phl_get_single_rx` copies a WIFI packet into. -/
def preallocNetbuf (mem : Mem) (t : Turn) (pkt : RxPkt) : RxPkt × List Extent :=
  if pkt.mdata.wifi.isSome then
    let mfrag := leBits (bytesAt mem pkt.virAddr 2) 10 1
    let fragNum := leBits (bytesAt mem (pkt.virAddr + 22) 2) 0 4
    let netbufLen :=
      if mfrag = 1 ∧ fragNum = 0 ∧ pkt.length < rtwMaxEthPktLen then rtwMaxEthPktLen
      else pkt.length
    if t.netbuf then
      ({ pkt with netbuf := some (netbufLen, bytesAt mem pkt.virAddr pkt.length) },
        [⟨pkt.virAddr, 2⟩, ⟨pkt.virAddr + 22, 2⟩, ⟨pkt.virAddr, pkt.length⟩])
    else (pkt, [⟨pkt.virAddr, 2⟩, ⟨pkt.virAddr + 22, 2⟩])
  else (pkt, [])

/-- The variables of the loop. -/
structure Loc where
  pktBuf : ℕ
  transferLen : ℤ
  turn : ℕ := 0
  /-- The loop has been left with `break`. -/
  stop : Bool := false
  pkts : List RxPkt := []
  reads : List Extent := []

/-- The body of the loop. -/
def rxTurn (env : Env) (mem : Mem) (s : Loc) : Loc :=
  let t := env.turn s.turn
  if !t.phlRx then { s with stop := true }
  else
    match halHandleRxBuffer mem t s.pktBuf s.transferLen with
    | (none, reads) => { s with stop := true, reads := s.reads ++ reads }
    | (some pkt, reads) =>
      let alignOffset := env.alignOffset (pkt.virAddr - s.pktBuf + pkt.length)
      let (pkt, reads') := preallocNetbuf mem t pkt
      { s with
        pktBuf := s.pktBuf + alignOffset
        transferLen := s.transferLen - alignOffset
        turn := s.turn + 1
        pkts := s.pkts ++ [pkt]
        reads := s.reads ++ (reads ++ reads') }

/-- The condition of the loop. -/
def more (s : Loc) : Bool := !s.stop && decide (0 < s.transferLen)

/-- The packets linked to `phl_rxhead`, and all that has been read. -/
structure Parsed where
  pkts : List RxPkt
  reads : List Extent

/-- `phl_get_single_rx` on a buffer that holds a transfer of `len` bytes. `none` if the loop is not
at its end after a turn for each byte. -/
def phlGetSingleRx (env : Env) (mem : Mem) (len : ℕ) : Option Parsed :=
  (whileLoop more (fun s => some (rxTurn env mem s)) len
    (rxTurn env mem ⟨0, len, 0, false, [], []⟩)).map
    fun s => ⟨s.pkts, s.reads⟩

/-! ## One turn -/

/-- The meta data of the descriptor at `p`. -/
def mdataAt (mem : Mem) (p : ℕ) : RMetaData := rMetaData (bytesAt mem p rxDescSSize)

/-- How far behind its descriptor a packet begins. -/
def RMetaData.pktOffset (m : RMetaData) : ℕ := m.shift + m.drvInfoSize * 8 + rxDescSSize

/-- Where the unit behind that at `p` begins. -/
def nextUnit (env : Env) (mem : Mem) (p : ℕ) : ℕ :=
  p + env.alignOffset ((mdataAt mem p).pktOffset + (mdataAt mem p).pktlen)

/-- The descriptor at `p` has a packet, which ends within the transfer. -/
def Whole (mem : Mem) (len p : ℕ) : Prop :=
  (mdataAt mem p).pktlen ≠ 0 ∧ p + (mdataAt mem p).pktOffset + (mdataAt mem p).pktlen ≤ len

/-- The reads for the unit at `p` are within the transfer: those of the words of the descriptor,
those of the driver info, if it is copied, and those of the 802.11 header of a packet that is
within the transfer. -/
structure UnitInside (mem : Mem) (len : ℕ) (t : Turn) (p : ℕ) : Prop where
  words : p + (if (mdataAt mem p).wifi.isSome then 20 else 12) ≤ len
  drvInfo : (mdataAt mem p).drvInfoSize ≠ 0 → t.kmalloc = true →
    p + rxDescSSize + (mdataAt mem p).drvInfoSize * 8 ≤ len
  hdr : (mdataAt mem p).wifi.isSome = true → Whole mem len p →
    p + (mdataAt mem p).pktOffset + 24 ≤ len

/-- The loop is at the offset `p` of a transfer. -/
structure At (len p : ℕ) (s : Loc) : Prop where
  pktBuf : s.pktBuf = p
  transferLen : s.transferLen = len - p
  running : s.stop = false

section
variable {env : Env} {mem : Mem} {len p : ℕ} {s : Loc} {t : Turn}

/-- The offset of a packet has eight bits. -/
theorem pktOffset_lt (mem : Mem) (p : ℕ) : (mdataAt mem p).pktOffset < 256 := by
  have hshift : (mdataAt mem p).shift < 4 := Nat.mod_lt _ (by decide)
  have hsize : (mdataAt mem p).drvInfoSize < 16 := Nat.mod_lt _ (by decide)
  unfold RMetaData.pktOffset rxDescSSize
  omega

/-- What has been read before the packet is looked at. -/
theorem inside_parsingRxWd : Inside len (parsingRxWd mem t p).2.2 ↔
    p + (if (mdataAt mem p).wifi.isSome then 20 else 12) ≤ len ∧
      ((mdataAt mem p).drvInfoSize ≠ 0 → t.kmalloc = true →
        p + rxDescSSize + (mdataAt mem p).drvInfoSize * 8 ≤ len) := by
  have hreads : (parsingRxWd mem t p).2.2 = [⟨p, 4⟩, ⟨p + 8, 4⟩] ++
      (if decide ((mdataAt mem p).drvInfoSize ≠ 0) && t.kmalloc then
        [⟨p + rxDescSSize, (mdataAt mem p).drvInfoSize * 8⟩] else []) ++
      if (mdataAt mem p).wifi.isSome then [⟨p + 4, 4⟩, ⟨p + 8, 4⟩, ⟨p + 16, 4⟩] else [] := rfl
  have hinfo : Inside len (if decide ((mdataAt mem p).drvInfoSize ≠ 0) && t.kmalloc then
        [⟨p + rxDescSSize, (mdataAt mem p).drvInfoSize * 8⟩] else []) ↔
      ((mdataAt mem p).drvInfoSize ≠ 0 → t.kmalloc = true →
        p + rxDescSSize + (mdataAt mem p).drvInfoSize * 8 ≤ len) := by
    split
    next h =>
      rw [Bool.and_eq_true, decide_eq_true_iff] at h
      simp [h.1, h.2]
    next h =>
      rw [Bool.and_eq_true, decide_eq_true_iff] at h
      exact iff_of_true inside_nil fun h1 h2 => absurd ⟨h1, h2⟩ h
  rw [hreads, inside_append, inside_append, hinfo, and_right_comm]
  refine and_congr_left fun _ => ?_
  -- the last word that is read is number 4 for a WIFI packet, and else number 2
  split <;> simp <;> omega

/-- A packet that is linked to `phl_rxhead` for the unit at `p`. -/
structure IsPacketAt (mem : Mem) (p : ℕ) (pkt : RxPkt) : Prop where
  mdata : pkt.mdata = mdataAt mem p
  data : pkt.data mem =
    bytesAt mem (p + (mdataAt mem p).pktOffset) (mdataAt mem p).pktlen
  drvInfo : ∀ info ∈ pkt.drvInfo,
    info = bytesAt mem (p + rxDescSSize) ((mdataAt mem p).drvInfoSize * 8)

/-- `hal_handle_rx_buffer_8822c` at a unit that is whole, and at one that is not. -/
theorem halHandleRxBuffer_whole (t : Turn) (hw : Whole mem len p) :
    ∃ pkt, halHandleRxBuffer mem t p (len - p) = (some pkt, (parsingRxWd mem t p).2.2 ++
        if (mdataAt mem p).wifi.isSome then wlanhdrReads (p + (mdataAt mem p).pktOffset) else []) ∧
      pkt.virAddr = p + (mdataAt mem p).pktOffset ∧ pkt.length = (mdataAt mem p).pktlen ∧
      pkt.netbuf = none ∧ IsPacketAt mem p pkt := by
  have hoff : ((mdataAt mem p).shift + (mdataAt mem p).drvInfoSize * 8 + rxDescSSize) % 256 =
      (mdataAt mem p).pktOffset := Nat.mod_eq_of_lt (pktOffset_lt mem p)
  have hfits : ¬((p : ℤ) + (len - p) <
      (p + (mdataAt mem p).pktOffset + (mdataAt mem p).pktlen : ℕ)) := by
    have := hw.2
    omega
  have hinfo : ∀ info ∈ (parsingRxWd mem t p).2.1,
      info = bytesAt mem (p + rxDescSSize) ((mdataAt mem p).drvInfoSize * 8) := by
    intro info hmem
    exact ((Option.ite_none_right_eq_some.mp hmem).2 : some _ =
      some info) |> Option.some.inj |>.symm
  unfold halHandleRxBuffer
  change ∃ pkt, (if (mdataAt mem p).pktlen = 0 then _ else _) = _ ∧ _
  rw [if_neg hw.1]
  dsimp only [parsingRxWd]
  rw [show rMetaData (bytesAt mem p rxDescSSize) = mdataAt mem p from rfl, hoff, if_neg hfits]
  cases hwifi : (mdataAt mem p).wifi with
  | some w =>
    exact ⟨_, rfl, rfl, rfl, rfl, rfl, rfl, hinfo⟩
  | none =>
    refine ⟨_, Prod.ext rfl ?_, rfl, rfl, rfl, rfl, rfl, hinfo⟩
    simp

theorem halHandleRxBuffer_of_not (t : Turn) (hw : ¬Whole mem len p) :
    halHandleRxBuffer mem t p (len - p) = (none, (parsingRxWd mem t p).2.2) := by
  have hoff : ((mdataAt mem p).shift + (mdataAt mem p).drvInfoSize * 8 + rxDescSSize) % 256 =
      (mdataAt mem p).pktOffset := Nat.mod_eq_of_lt (pktOffset_lt mem p)
  unfold halHandleRxBuffer
  change (if (mdataAt mem p).pktlen = 0 then _ else _) = _
  split
  · rfl
  next hlen =>
    refine if_pos ?_
    change (p : ℤ) + (len - p) < (p + ((mdataAt mem p).shift + (mdataAt mem p).drvInfoSize * 8 +
      rxDescSSize) % 256 + (mdataAt mem p).pktlen : ℕ)
    rw [hoff]
    have : ¬p + (mdataAt mem p).pktOffset + (mdataAt mem p).pktlen ≤ len := fun h => hw ⟨hlen, h⟩
    omega

/-- A copy in a network buffer changes nothing about a packet. The header is read again. -/
theorem preallocNetbuf_spec {pkt : RxPkt} (t : Turn) (hw : Whole mem len p)
    (hpkt : IsPacketAt mem p pkt) (haddr : pkt.virAddr = p + (mdataAt mem p).pktOffset)
    (hlen : pkt.length = (mdataAt mem p).pktlen) :
    IsPacketAt mem p (preallocNetbuf mem t pkt).1 ∧
      (Inside len (preallocNetbuf mem t pkt).2 ↔
        ((mdataAt mem p).wifi.isSome = true → p + (mdataAt mem p).pktOffset + 24 ≤ len)) := by
  have hpayload : pkt.virAddr + pkt.length ≤ len := by
    rw [haddr, hlen]
    exact hw.2
  unfold preallocNetbuf
  rw [hpkt.mdata]
  cases hwifi : (mdataAt mem p).wifi with
  | none => exact ⟨hpkt, by simp⟩
  | some w =>
    dsimp only
    rw [if_pos Option.isSome_some]
    split
    · refine ⟨⟨rfl, ?_, hpkt.drvInfo⟩, ?_⟩
      · rw [← haddr, ← hlen]
        rfl
      · simp [← haddr]
        omega
    · refine ⟨hpkt, ?_⟩
      simp [← haddr]
      omega

/-- The unit at `p` has been taken between the two states. -/
structure Took (env : Env) (mem : Mem) (len p : ℕ) (s s' : Loc) : Prop where
  next : At len (nextUnit env mem p) s'
  turn : s'.turn = s.turn + 1
  pkts : ∃ pkt, s'.pkts = s.pkts ++ [pkt] ∧ IsPacketAt mem p pkt
  reads : Inside len s'.reads ↔ Inside len s.reads ∧ UnitInside mem len (env.turn s.turn) p

/-- A turn at a unit that is whole. -/
theorem At.whole (h : At len p s) (hrx : (env.turn s.turn).phlRx = true) (hw : Whole mem len p) :
    Took env mem len p s (rxTurn env mem s) := by
  obtain ⟨pkt, hhandle, haddr, hlen, -, hpkt⟩ := halHandleRxBuffer_whole (env.turn s.turn) hw
  obtain ⟨hpkt', hreads⟩ := preallocNetbuf_spec (env.turn s.turn) hw hpkt haddr hlen
  have hturn : rxTurn env mem s = { s with
      pktBuf := nextUnit env mem p
      transferLen := len - (nextUnit env mem p : ℕ)
      turn := s.turn + 1
      pkts := s.pkts ++ [(preallocNetbuf mem (env.turn s.turn) pkt).1]
      reads := s.reads ++ ((parsingRxWd mem (env.turn s.turn) p).2.2 ++
        (if (mdataAt mem p).wifi.isSome then wlanhdrReads (p + (mdataAt mem p).pktOffset) else
          []) ++
        (preallocNetbuf mem (env.turn s.turn) pkt).2) } := by
    unfold rxTurn nextUnit
    dsimp only
    rw [hrx, h.pktBuf, h.transferLen, hhandle]
    dsimp only
    rw [haddr, hlen, Nat.add_sub_cancel_left]
    simp only [Bool.not_true, Bool.false_eq_true, if_false, Loc.mk.injEq, true_and, and_true]
    omega
  rw [hturn]
  refine ⟨⟨rfl, rfl, h.running⟩, rfl, ⟨_, rfl, hpkt'⟩, ?_⟩
  · rw [inside_append, inside_append, inside_append, hreads, inside_parsingRxWd]
    refine and_congr_right fun _ => ?_
    constructor
    · rintro ⟨⟨⟨hwords, hinfo⟩, -⟩, hhdr⟩
      exact ⟨hwords, hinfo, fun hwifi _ => hhdr hwifi⟩
    · rintro ⟨hwords, hinfo, hhdr⟩
      refine ⟨⟨⟨hwords, hinfo⟩, ?_⟩, fun hwifi => hhdr hwifi hw⟩
      split
      next hwifi =>
        have := hhdr hwifi hw
        simp [wlanhdrReads, frameOffsetAddress2]
        omega
      · exact inside_nil

/-- A turn that finds no packet. -/
theorem At.notWhole (h : At len p s) (hrx : (env.turn s.turn).phlRx = true)
    (hw : ¬Whole mem len p) :
    ∃ reads, rxTurn env mem s = { s with stop := true, reads := s.reads ++ reads } ∧
      (Inside len reads ↔ UnitInside mem len (env.turn s.turn) p) := by
  refine ⟨(parsingRxWd mem (env.turn s.turn) p).2.2, ?_, ?_⟩
  · unfold rxTurn
    dsimp only
    rw [hrx, h.pktBuf, h.transferLen, halHandleRxBuffer_of_not _ hw]
    rfl
  · rw [inside_parsingRxWd]
    exact ⟨fun ⟨hwords, hinfo⟩ => ⟨hwords, hinfo, fun _ h => absurd h hw⟩,
      fun hu => ⟨hu.words, hu.drvInfo⟩⟩

theorem rxTurn_noRx (hrx : (env.turn s.turn).phlRx = false) :
    rxTurn env mem s = { s with stop := true } := by
  unfold rxTurn
  dsimp only
  rw [hrx]
  rfl

end

/-! ## The walk over the units -/

/-- From the turn `k` at the offset `p`, the loop comes to the turn `k'` at `p'`. -/
inductive Visits (env : Env) (mem : Mem) (len : ℕ) : ℕ → ℕ → ℕ → ℕ → Prop where
  | here (k p : ℕ) : Visits env mem len k p k p
  | next {k p k' p' : ℕ} : (env.turn k).phlRx = true → Whole mem len p → nextUnit env mem p < len →
      Visits env mem len (k + 1) (nextUnit env mem p) k' p' → Visits env mem len k p k' p'

/-- The reads of all turns from the turn `k` at `p` on are within the transfer. -/
def AllInside (env : Env) (mem : Mem) (len k p : ℕ) : Prop :=
  ∀ k' p', Visits env mem len k p k' p' → (env.turn k').phlRx = true →
    UnitInside mem len (env.turn k') p'

section
variable {env : Env} {mem : Mem} {len k p : ℕ} {s : Loc}

theorem le_alignOffset (env : Env) (n : ℕ) : n ≤ env.alignOffset n := by
  unfold Env.alignOffset
  split <;> omega

/-- A unit has a descriptor at least. -/
theorem lt_nextUnit (env : Env) (mem : Mem) (p : ℕ) : p < nextUnit env mem p := by
  have hle := le_alignOffset env ((mdataAt mem p).pktOffset + (mdataAt mem p).pktlen)
  unfold nextUnit
  unfold RMetaData.pktOffset rxDescSSize at hle
  unfold RMetaData.pktOffset rxDescSSize
  omega

theorem allInside_of_noRx (h : (env.turn k).phlRx = false) : AllInside env mem len k p := by
  intro k' p' hv hrx
  cases hv with
  | here => rw [h] at hrx; cases hrx
  | next hrx' => rw [h] at hrx'; cases hrx'

/-- There is no other unit behind this one. -/
theorem allInside_last (hrx : (env.turn k).phlRx = true)
    (hlast : ¬(Whole mem len p ∧ nextUnit env mem p < len)) :
    AllInside env mem len k p ↔ UnitInside mem len (env.turn k) p := by
  constructor
  · exact fun h => h k p (.here k p) hrx
  · intro h k' p' hv _
    cases hv with
    | here => exact h
    | next _ hw hlt => exact absurd ⟨hw, hlt⟩ hlast

theorem allInside_next (hrx : (env.turn k).phlRx = true) (hw : Whole mem len p)
    (hlt : nextUnit env mem p < len) :
    AllInside env mem len k p ↔ UnitInside mem len (env.turn k) p ∧
      AllInside env mem len (k + 1) (nextUnit env mem p) := by
  constructor
  · exact fun h => ⟨h k p (.here k p) hrx, fun k' p' hv => h k' p' (.next hrx hw hlt hv)⟩
  · rintro ⟨h, hall⟩ k' p' hv
    cases hv with
    | here => exact fun _ => h
    | next _ _ _ hv => exact hall k' p' hv

/-- The condition of the loop. -/
theorem At.more_eq (h : At len p s) : more s = decide (p < len) := by
  unfold more
  rw [h.running, h.transferLen, Bool.not_false, Bool.true_and]
  exact decide_eq_decide.mpr (by omega)

/-- A turn behind which the loop goes on. -/
theorem Took.goesOn {s' : Loc} (h : Took env mem len p s s') (hlt : nextUnit env mem p < len)
    (n : ℕ) : whileLoop more (fun s => some (rxTurn env mem s)) (n + 1) s' =
      whileLoop more (fun s => some (rxTurn env mem s)) n (rxTurn env mem s') :=
  whileLoop_succ n (h.next.more_eq.trans (decide_eq_true hlt))

/-- A turn behind which the loop ends. -/
theorem Took.ends {s' : Loc} (h : Took env mem len p s s') (hlt : ¬nextUnit env mem p < len)
    (n : ℕ) : whileLoop more (fun s => some (rxTurn env mem s)) n s' = some s' :=
  whileLoop_of_not n (h.next.more_eq.trans (decide_eq_false hlt))

/-- The loop ends, and its reads are inside exactly if those at all units are. -/
theorem At.loop_inside (env : Env) (mem : Mem) (n : ℕ) (h : At len p s) (hn : len ≤ p + n) :
    ∃ s', whileLoop more (fun s => some (rxTurn env mem s)) n (rxTurn env mem s) = some s' ∧
      (Inside len s'.reads ↔ Inside len s.reads ∧ AllInside env mem len s.turn p) := by
  induction n using Nat.strongRecOn generalizing s p with
  | _ n ih =>
    by_cases hrx : (env.turn s.turn).phlRx = true
    · by_cases hw : Whole mem len p
      · have htook := h.whole hrx hw
        by_cases hlt : nextUnit env mem p < len
        · -- the loop goes on behind the unit
          have hpos := lt_nextUnit env mem p
          obtain ⟨m, rfl⟩ : ∃ m, n = m + 1 := ⟨n - 1, by omega⟩
          obtain ⟨s', hs', hiff⟩ := ih m (Nat.lt_succ_self m) htook.next (by omega)
          refine ⟨s', (htook.goesOn hlt m).trans hs', ?_⟩
          rw [hiff, htook.reads, htook.turn, allInside_next hrx hw hlt, and_assoc]
        · refine ⟨_, htook.ends hlt n, ?_⟩
          rw [htook.reads, allInside_last hrx fun h => hlt h.2]
      · obtain ⟨reads, hturn, hreads⟩ := h.notWhole hrx hw
        refine ⟨_, by rw [hturn]; exact whileLoop_of_not n rfl, ?_⟩
        rw [inside_append, hreads, allInside_last hrx fun h => hw h.1]
    · have hrx := Bool.eq_false_iff.mpr hrx
      refine ⟨_, by rw [rxTurn_noRx hrx]; exact whileLoop_of_not n rfl, ?_⟩
      exact (and_iff_left (allInside_of_noRx hrx)).symm

end

/-! ## Transfers that are put together from units -/

/-- A descriptor with its driver info, the bytes that the packet is shifted by, and the packet. -/
structure RxUnit where
  desc : List Byte
  drvInfo : List Byte
  shift : List Byte
  packet : List Byte
  length_desc : desc.length = rxDescSSize
  length_drvInfo : drvInfo.length = getRxDescDrvInfoSize desc * 8
  length_shift : shift.length = getRxDescShift desc
  length_packet : packet.length = getRxDescPktLen desc
  packet_ne_nil : packet ≠ []

/-- The bytes of a unit. -/
def RxUnit.enc (u : RxUnit) : List Byte := u.desc ++ (u.drvInfo ++ (u.shift ++ u.packet))

/-- The bytes are those of the units, each of them padded to where the next one begins. The last
one may be padded, too. -/
inductive Transfer (env : Env) : List RxUnit → List Byte → Prop where
  | nil : Transfer env [] []
  | last (u : RxUnit) (pad : List Byte) :
    u.enc.length + pad.length ≤ env.alignOffset u.enc.length → Transfer env [u] (u.enc ++ pad)
  | cons {u : RxUnit} {us : List RxUnit} {pad bytes : List Byte} : us ≠ [] →
    u.enc.length + pad.length = env.alignOffset u.enc.length → Transfer env us bytes →
    Transfer env (u :: us) (u.enc ++ (pad ++ bytes))

/-- The packet is that of the unit. -/
structure IsPacket (mem : Mem) (pkt : RxPkt) (u : RxUnit) : Prop where
  mdata : pkt.mdata = rMetaData u.desc
  data : pkt.data mem = u.packet
  drvInfo : ∀ info ∈ pkt.drvInfo, info = u.drvInfo

/-- There is a free `phl_rx` for each of `n` turns. -/
def Serves (env : Env) (k n : ℕ) : Prop := ∀ i < n, (env.turn (k + i)).phlRx = true

section
variable {env : Env} {mem : Mem} {len k n p : ℕ} {s : Loc} {u : RxUnit}

theorem serves_succ : Serves env k (n + 1) ↔
    (env.turn k).phlRx = true ∧ Serves env (k + 1) n := by
  unfold Serves
  rw [Nat.forall_lt_succ_left]
  simp only [Nat.add_zero, Nat.add_assoc, Nat.add_comm 1]

/-- What stands in the memory where a unit is. -/
structure UnitAt (mem : Mem) (p : ℕ) (u : RxUnit) : Prop where
  mdata : mdataAt mem p = rMetaData u.desc
  drvInfo : bytesAt mem (p + rxDescSSize) ((mdataAt mem p).drvInfoSize * 8) = u.drvInfo
  packet : bytesAt mem (p + (mdataAt mem p).pktOffset) (mdataAt mem p).pktlen = u.packet
  length_enc : u.enc.length = (mdataAt mem p).pktOffset + (mdataAt mem p).pktlen

theorem unitAt_of_bytesAt (h : bytesAt mem p u.enc.length = u.enc) : UnitAt mem p u := by
  obtain ⟨hdesc, hrest⟩ := bytesAt_append h
  obtain ⟨hinfo, hrest⟩ := bytesAt_append hrest
  obtain ⟨-, hpacket⟩ := bytesAt_append hrest
  rw [u.length_desc] at hdesc hinfo hpacket
  have hmdata : mdataAt mem p = rMetaData u.desc := congrArg rMetaData hdesc
  have hoff : (mdataAt mem p).pktOffset = u.shift.length + u.drvInfo.length + rxDescSSize := by
    rw [hmdata, u.length_shift, u.length_drvInfo]
    rfl
  refine ⟨hmdata, ?_, ?_, ?_⟩
  · rwa [hmdata, show (rMetaData u.desc).drvInfoSize * 8 = u.drvInfo.length from
      u.length_drvInfo.symm]
  · rw [hoff, hmdata, show (rMetaData u.desc).pktlen = u.packet.length from u.length_packet.symm]
    rwa [show p + (u.shift.length + u.drvInfo.length + rxDescSSize) =
      p + rxDescSSize + u.drvInfo.length + u.shift.length by omega]
  · rw [hoff, hmdata, show (rMetaData u.desc).pktlen = u.packet.length from u.length_packet.symm]
    unfold RxUnit.enc
    simp only [List.length_append, u.length_desc]
    omega

theorem UnitAt.whole (h : UnitAt mem p u) (hle : p + u.enc.length ≤ len) : Whole mem len p := by
  refine ⟨?_, ?_⟩
  · rw [h.mdata, show (rMetaData u.desc).pktlen = u.packet.length from u.length_packet.symm]
    exact Nat.ne_of_gt (List.length_pos_iff.mpr u.packet_ne_nil)
  · rwa [Nat.add_assoc, ← h.length_enc]

/-- Where the next unit begins. -/
theorem UnitAt.nextUnit_eq (h : UnitAt mem p u) (env : Env) :
    nextUnit env mem p = p + env.alignOffset u.enc.length := by
  rw [nextUnit, h.length_enc]

theorem UnitAt.isPacket {pkt : RxPkt} (h : UnitAt mem p u) (hpkt : IsPacketAt mem p pkt) :
    IsPacket mem pkt u where
  mdata := hpkt.mdata.trans h.mdata
  data := hpkt.data.trans h.packet
  drvInfo info hinfo := (hpkt.drvInfo info hinfo).trans h.drvInfo

theorem RxUnit.length_pos (u : RxUnit) : 0 < u.enc.length := by
  have := u.length_desc
  unfold rxDescSSize at this
  unfold RxUnit.enc
  rw [List.length_append]
  omega

theorem Transfer.length_pos {us : List RxUnit} {bytes : List Byte} (ht : Transfer env us bytes)
    (hus : us ≠ []) : 0 < bytes.length := by
  cases ht with
  | nil => exact absurd rfl hus
  | last u pad => exact Nat.lt_of_lt_of_le u.length_pos (by simp)
  | @cons u => exact Nat.lt_of_lt_of_le u.length_pos (by simp)

/-- The loop links the packets of the units, as long as there is a `phl_rx` for them. -/
theorem Transfer.loop {us : List RxUnit} {bytes : List Byte} (ht : Transfer env us bytes)
    (hus : us ≠ []) (h : At len p s) (hbytes : bytesAt mem p bytes.length = bytes)
    (hlen : p + bytes.length = len) (hn : bytes.length ≤ n) :
    ∃ s' out, whileLoop more (fun s => some (rxTurn env mem s)) n (rxTurn env mem s) = some s' ∧
      s'.pkts = s.pkts ++ out ∧
      (Serves env s.turn us.length → List.Forall₂ (IsPacket mem) out us) ∧
      (¬Serves env s.turn us.length → out.length < us.length) := by
  -- without a `phl_rx` the loop links nothing more
  have hnoRx {s : Loc} {us : List RxUnit} (n : ℕ) (hus : us ≠ [])
      (hrx : (env.turn s.turn).phlRx = false) :
      ∃ s' out, whileLoop more (fun s => some (rxTurn env mem s)) n (rxTurn env mem s) = some s' ∧
        s'.pkts = s.pkts ++ out ∧
        (Serves env s.turn us.length → List.Forall₂ (IsPacket mem) out us) ∧
        (¬Serves env s.turn us.length → out.length < us.length) := by
    have hpos := List.length_pos_iff.mpr hus
    refine ⟨_, [], by rw [rxTurn_noRx hrx]; exact whileLoop_of_not n rfl, by simp, ?_,
      fun _ => hpos⟩
    intro hserves
    have := hserves 0 hpos
    rw [Nat.add_zero, hrx] at this
    cases this
  induction ht generalizing n s p with
  | nil => exact absurd rfl hus
  | last u pad hpad =>
    cases hrx : (env.turn s.turn).phlRx with
    | false => exact hnoRx n hus hrx
    | true =>
      have hu := unitAt_of_bytesAt (bytesAt_append hbytes).1
      rw [List.length_append] at hlen
      have htook := h.whole hrx (hu.whole (by omega))
      have hlast : ¬nextUnit env mem p < len := by
        rw [hu.nextUnit_eq]
        omega
      obtain ⟨pkt, hpkts, hpkt⟩ := htook.pkts
      refine ⟨_, [pkt], htook.ends hlast n, hpkts, fun _ => ?_, fun hno => ?_⟩
      · exact .cons (hu.isPacket hpkt) .nil
      · exact absurd (serves_succ.mpr ⟨hrx, fun i hi => absurd hi (Nat.not_lt_zero i)⟩) hno
  | @cons u us pad bytes hne hpad ht ih =>
    cases hrx : (env.turn s.turn).phlRx with
    | false => exact hnoRx n hus hrx
    | true =>
      obtain ⟨hunit, hrest⟩ := bytesAt_append hbytes
      have hbytes' := (bytesAt_append hrest).2
      have hu := unitAt_of_bytesAt hunit
      rw [List.length_append, List.length_append] at hlen hn
      have htook := h.whole hrx (hu.whole (by omega))
      have hnext : nextUnit env mem p = p + u.enc.length + pad.length := by
        rw [hu.nextUnit_eq, ← hpad, Nat.add_assoc]
      have hpos := ht.length_pos hne
      have hupos := u.length_pos
      obtain ⟨n, rfl⟩ : ∃ m, n = m + 1 := ⟨n - 1, by omega⟩
      obtain ⟨s', out, hs', hout, hall, hsome⟩ := ih (n := n) hne (hnext ▸ htook.next) hbytes'
        (by omega) (by omega)
      obtain ⟨pkt, hpkts, hpkt⟩ := htook.pkts
      refine ⟨s', pkt :: out, ?_, ?_, fun hserves => ?_, fun hno => ?_⟩
      · rw [htook.goesOn (by omega) n]
        exact hs'
      · rw [hout, hpkts, List.append_assoc]
        rfl
      · rw [List.length_cons, serves_succ, ← htook.turn] at hserves
        exact .cons (hu.isPacket hpkt) (hall hserves.2)
      · rw [List.length_cons, serves_succ, ← htook.turn, and_iff_right hrx] at hno
        exact Nat.succ_lt_succ (hsome hno)

/-- A transfer without a byte has no packet, whatever stands in the buffer. -/
theorem At.loop_empty (env : Env) (mem : Mem) (h : At 0 0 s) (n : ℕ) :
    ∃ s', whileLoop more (fun s => some (rxTurn env mem s)) n (rxTurn env mem s) = some s' ∧
      s'.pkts = s.pkts := by
  cases hrx : (env.turn s.turn).phlRx with
  | false =>
    refine ⟨{ s with stop := true }, ?_, rfl⟩
    rw [rxTurn_noRx hrx]
    exact whileLoop_of_not n rfl
  | true =>
    have hw : ¬Whole mem 0 0 := by
      rintro ⟨-, hle⟩
      unfold RMetaData.pktOffset rxDescSSize at hle
      omega
    obtain ⟨reads, hturn, -⟩ := h.notWhole hrx hw
    refine ⟨{ s with stop := true, reads := s.reads ++ reads }, ?_, rfl⟩
    rw [hturn]
    exact whileLoop_of_not n rfl

end

/-- **Parsing a transfer.** The loop ends for every transfer. Its reads are within the transfer
exactly if those at every unit it comes to are. From units that have been put together it gets their
packets, in order, exactly if there is a `phl_rx` for each of them. -/
theorem phlGetSingleRx_iff (env : Env) (mem : Mem) (len : ℕ) :
    ∃ out, phlGetSingleRx env mem len = some out ∧
      (Inside len out.reads ↔ AllInside env mem len 0 0) ∧
      ∀ us, Transfer env us (bytesAt mem 0 len) →
        (List.Forall₂ (IsPacket mem) out.pkts us ↔ Serves env 0 us.length) := by
  have hat : At len 0 ⟨0, len, 0, false, [], []⟩ := ⟨rfl, by simp, rfl⟩
  obtain ⟨s, hs, hreads⟩ := hat.loop_inside env mem len (by omega)
  refine ⟨⟨s.pkts, s.reads⟩, congrArg (Option.map _) hs, ?_, fun us ht => ?_⟩
  · exact hreads.trans (and_iff_right inside_nil)
  · by_cases hus : us = []
    · subst hus
      have hzero : len = 0 := by
        rw [← length_bytesAt mem 0 len]
        generalize bytesAt mem 0 len = bytes at ht
        cases ht
        rfl
      subst hzero
      obtain ⟨s', hs', hpkts⟩ := hat.loop_empty env mem 0
      obtain rfl := Option.some.inj (hs.symm.trans hs')
      rw [hpkts]
      exact iff_of_true .nil fun i hi => absurd hi (Nat.not_lt_zero i)
    · obtain ⟨s', out, hs', hout, hall, hsome⟩ := ht.loop (n := len) hus hat
        (by rw [length_bytesAt]) (by rw [length_bytesAt, Nat.zero_add])
        (Nat.le_of_eq (length_bytesAt mem 0 len))
      obtain rfl := Option.some.inj (hs.symm.trans hs')
      rw [List.nil_append] at hout
      rw [hout]
      refine ⟨fun h => ?_, hall⟩
      by_contra hno
      exact Nat.ne_of_lt (hsome hno) h.length_eq

/-- A `phl_rx`, memory and network buffers are there in every turn. -/
def served (usbRxAggregation : Bool) : Env := ⟨usbRxAggregation, fun _ => ⟨true, true, true⟩⟩

/-- The memory with these bytes, and zeros behind them. -/
def memOf (bytes : List Byte) : Mem := fun i => bytes.getD i 0

/-- A descriptor without driver info for an acknowledgement, a WIFI packet of ten bytes. -/
def ackUnit : RxUnit where
  desc := 10 :: List.replicate 23 0
  drvInfo := []
  shift := []
  packet := 0xd4 :: List.replicate 9 0
  length_desc := rfl
  length_drvInfo := rfl
  length_shift := rfl
  length_packet := rfl
  packet_ne_nil := List.cons_ne_nil _ _

/-- The header of an acknowledgement at the end of a transfer is read beyond the end. -/
theorem ack_overrun :
    (Transfer (served true) [ackUnit] (bytesAt (memOf ackUnit.enc) 0 34) ∧
      ∃ out, phlGetSingleRx (served true) (memOf ackUnit.enc) 34 = some out ∧
        ¬Inside 34 out.reads) ∧
    Transfer (served false) [ackUnit] (bytesAt (memOf ackUnit.enc) 0 34) ∧
      ∃ out, phlGetSingleRx (served false) (memOf ackUnit.enc) 34 = some out ∧
        ¬Inside 34 out.reads := by
  have hbytes : bytesAt (memOf ackUnit.enc) 0 34 = ackUnit.enc ++ [] := by decide
  rw [hbytes]
  exact ⟨⟨.last ackUnit [] (by decide), _, rfl, by decide⟩,
    .last ackUnit [] (by decide), _, rfl, by decide⟩

end Rtl88x2cu.Trx.SingleRx
