import Rtl88x2cu.Lib.Run
import Rtl88x2cu.Trx.RingIndex

/-!
# The USB transmit path

The core adds requests to the TX rings of a station with `rtw_phl_add_tx_req`
(`phl/phl_tx.c`); the transmit handler `_phl_tx_callback_usb` (`phl/hci/phl_trx_usb.c`) takes
them out, copies them into USB buffers and submits these to the bus. A ring list that is
deregistered is freed later, by the handler at its end or by `phl_datapath_stop`.

The model is one step system. The core's calls run under `t_ring_list_lock`; the handler holds
that lock only while it looks for work, so its later steps interleave with the calls. The
handler is a tasklet, one run at a time. Its loop is cut at every access to the indices of a
ring.

The order in which `phl_tx_flow_ctrl` lists the rings, the rings it leaves out because the pool
of ring statuses is empty, the result of `rtw_hal_fill_wd` and that of `os_usb_tx` are part of
the events. Lengths are natural numbers: a request has at most 255 fragments of at most 65535
bytes, so that the `u32` sums of the source do not wrap.

The fields of a state after `inflight` record what has happened.
-/

namespace Rtl88x2cu.Trx.UsbTx

/-! ## Requests and rings -/

/-- `enum rtw_packet_type`. -/
inductive PktType where
  | data
  | mgnt
  | h2c
  | ctrl
  deriving DecidableEq, Repr

/-- `enum rtw_treq_type`. -/
inductive TreqType where
  | phlUpdateTxsc
  | normal
  | testPattern
  | coreTxsc
  | phlAddTxsc
  deriving DecidableEq, Repr

/-- A fragment of a request: whether `vir_addr` is set, and `length`. -/
structure PktBuf where
  virAddr : Bool
  length : ℕ
  deriving DecidableEq, Repr

/-- `struct rtw_xmit_req`, as far as the transmit path reads it. -/
structure XmitReq where
  /-- The address of the request. -/
  addr : ℕ
  /-- `os_priv` is not `NULL`. -/
  osPriv : Bool
  treqType : TreqType
  type : PktType
  wdinfoEn : Bool
  totalLen : ℕ
  pktList : List PktBuf
  deriving DecidableEq, Repr

/-- `struct rtw_phl_tx_ring`, less the fields that do not change. -/
structure TxRing where
  entry : ℕ → Option XmitReq
  coreIdx : ℕ
  phlIdx : ℕ
  phlNextIdx : ℕ

/-- A ring of one of the ring lists; each has `MAX_PHL_RING_CAT_NUM` of them. -/
structure RingId where
  ringList : ℕ
  tid : Fin 10
  deriving DecidableEq, Repr

/-- Where a ring list is. -/
inductive Life where
  /-- In `t_ring_list`. -/
  | registered
  /-- In `t_ring_free_list`. -/
  | deregistered
  | freed
  deriving DecidableEq, Repr

/-- `MGMT_TID`. -/
def mgmtTid : Fin 10 := 8

/-! ## Buffers -/

/-- `struct phl_usb_buf`. -/
structure UsbBuf where
  id : ℕ
  bufLen : ℕ
  type : PktType
  deriving DecidableEq, Repr

/-- A request copied to `ofs` in a buffer, with its descriptor. -/
structure Segment where
  ofs : ℕ
  len : ℕ
  req : XmitReq
  deriving DecidableEq, Repr

/-- What was handed to `os_usb_tx`. -/
structure Submission where
  ring : RingId
  buf : UsbBuf
  segs : List Segment
  len : ℕ
  deriving DecidableEq, Repr

/-- The build options and bus capabilities that the transmit path depends on. Without
`CONFIG_PHL_USB_TX_AGGREGATION` a run sends one request per ring. -/
structure TxCfg where
  aggregation : Bool
  paddingChk : Bool
  txBufSize : ℕ
  txBufNum : ℕ
  txMgntBufSize : ℕ
  txMgntBufNum : ℕ
  bulkoutSize : ℕ
  maxBulkoutWdNum : ℕ

/-- `_ALIGN(len, 8)`. -/
def align8 (len : ℕ) : ℕ := (len + 7) / 8 * 8

/-- `IDX_NONE`. -/
def idxNone : ℕ := 0xffffffff

/-- `PKT_OFFSET_DUMMY`. -/
def pktOffsetDummy : ℕ := 8

/-- `MAX_WD_LEN` or `MAX_WD_BODY_LEN`. -/
def maxWdLen (req : XmitReq) : ℕ := if req.wdinfoEn then 48 else 24

/-- `GET_SHIFT_OFFSET`. -/
def getShiftOffset (bulkSize : ℕ) : ℕ :=
  if bulkSize = 1024 then 10 else if bulkSize = 512 then 9 else 6

/-! ## `_usb_tx_agg_preprocess` -/

/-- The variables of its loop. -/
structure Pre where
  cnt : ℕ := 0
  txLen : ℕ := 0
  packetLen : ℕ := 0
  trascAggCnt : ℕ := 0
  trascIdx : ℕ := 0
  lastIdx : ℕ := idxNone

/-- The last request before the current one. -/
def Pre.stopBefore (p : Pre) : Pre :=
  { p with lastIdx := if p.cnt ≠ 0 then p.cnt - 1 else idxNone }

/-- The loop, with the number of requests left to look at as fuel. -/
def preprocessLoop (cfg : TxCfg) (entry : ℕ → Option XmitReq) (rptr : ℕ) : ℕ → Pre → Pre
  | 0, p => p
  | left + 1, p =>
    match entry ((rptr + p.cnt) % maxPhlRingEntryNum) with
    | none => p.stopBefore
    | some req =>
      if cfg.txBufSize - pktOffsetDummy < align8 (maxWdLen req + req.totalLen) + p.txLen then
        p.stopBefore
      else
        let packetAlignLen := align8 p.packetLen - p.packetLen
        if (p.txLen + maxWdLen req + packetAlignLen) % cfg.bulkoutSize = 0 then
          p.stopBefore
        else
          let packetLen := maxWdLen req + req.totalLen
          let txLen := p.txLen + packetAlignLen + packetLen
          let crossed := p.trascIdx ≠ txLen >>> getShiftOffset cfg.bulkoutSize
          let trascIdx :=
            if crossed then txLen >>> getShiftOffset cfg.bulkoutSize % 256 else p.trascIdx
          let trascAggCnt := if crossed then 0 else (p.trascAggCnt + 1) % 256
          let p' : Pre := { p with txLen, packetLen, trascAggCnt, trascIdx }
          if cfg.maxBulkoutWdNum ≤ trascAggCnt then
            { p' with lastIdx := p.cnt }
          else if req.type ≠ .data ∨ cfg.aggregation = false then
            { p' with cnt := p.cnt + 1 }
          else
            preprocessLoop cfg entry rptr left { p' with cnt := p.cnt + 1 }

/-- `_usb_tx_agg_preprocess`: `last_idx` and `add_dummy`. -/
def usbTxAggPreprocess (cfg : TxCfg) (ring : TxRing) (reqBusy : ℕ) : ℕ × Bool :=
  let p := preprocessLoop cfg ring.entry (toU16 ring.phlNextIdx) reqBusy {}
  (if p.lastIdx = idxNone ∧ p.txLen ≠ 0 ∧ p.cnt ≤ reqBusy then
      (if p.cnt ≠ 0 then p.cnt - 1 else idxNone)
    else p.lastIdx,
   decide (p.txLen ≠ 0 ∧ p.txLen % cfg.bulkoutSize = 0))

/-! ## One request -/

/-- The variables of `_phl_handle_xmit_ring_usb`; `segs` is what has been copied into the
buffer. -/
structure Loc where
  reqBusy : ℕ
  txLen : ℕ := 0
  packetLen : ℕ := 0
  /-- `tx_buf_data`, as an offset into the buffer. -/
  txBufData : ℕ := 0
  aggCnt : ℕ := 0
  trascAggCnt : ℕ := 0
  trascIdx : ℕ := 0
  lastIdx : ℕ := idxNone
  isDummy : Bool := false
  type : PktType := .data
  pstatus : RtwPhlStatus := .failure
  segs : List Segment := []

/-- The recycling at the end of `_phl_prepare_tx_usb`. `rtw_core_tx_recycle` gives the request
back unless its `os_priv` is `NULL`; no `tx_test_recycle` is registered. -/
def txRecycle (req : XmitReq) : RtwPhlStatus :=
  if req.treqType = .normal ∧ req.osPriv = true then .success else .failure

/-- The bytes `_phl_prepare_tx_usb` writes. -/
def copyLen (req : XmitReq) (usbPktOfst : Bool) (wdLen : ℕ) : ℕ :=
  wdLen + (if usbPktOfst then pktOffsetDummy else 0) +
    ((req.pktList.filter (·.virAddr)).map (·.length)).sum

/-- `_phl_prepare_tx_usb` and the two assignments around its call. `fillWd` is the descriptor
length `rtw_hal_fill_wd` gives, or `none` if it fails. -/
def prepareTxUsb (loc : Loc) (req : XmitReq) (usbPktOfst : Bool) (fillWd : Option ℕ) : Loc :=
  match fillWd with
  | none => { loc with packetLen := 0, pstatus := .failure }
  | some wdLen =>
    { loc with
      packetLen := copyLen req usbPktOfst wdLen
      txLen := loc.txLen + copyLen req usbPktOfst wdLen
      pstatus := txRecycle req
      segs := loc.segs ++ [⟨loc.txBufData, copyLen req usbPktOfst wdLen, req⟩] }

/-- The request gets a dummy offset. -/
def marks (loc : Loc) : Bool :=
  decide (loc.lastIdx ≠ idxNone ∧ loc.aggCnt = loc.lastIdx % 256 ∧ loc.isDummy = true)

/-- `wd_len`. -/
def wdLen (loc : Loc) (req : XmitReq) : ℕ :=
  if marks loc then maxWdLen req + pktOffsetDummy else maxWdLen req

/-- What the size of a buffer is compared with. -/
def txLimit (cfg : TxCfg) : ℕ :=
  if cfg.paddingChk then cfg.txBufSize - pktOffsetDummy else cfg.txBufSize

/-- The variables after the alignment behind the previous request of an aggregate. -/
def alignTx (loc : Loc) : Loc :=
  { loc with
    txBufData := loc.txBufData + align8 loc.packetLen
    txLen := if loc.packetLen < align8 loc.packetLen
      then loc.txLen + (align8 loc.packetLen - loc.packetLen) else loc.txLen }

/-- The checks that leave the loop before a request is prepared; `none` if one of them does,
else the variables at the call of `_phl_prepare_tx_usb`. -/
def beforePrepare (cfg : TxCfg) (loc : Loc) (req : XmitReq) : Option Loc :=
  if txLimit cfg < align8 (wdLen loc req + req.totalLen) + loc.txLen then none
  else if cfg.aggregation ∧ req.type = .data then
    if loc.txLen ≠ 0 ∧
        (loc.txLen + wdLen loc req + align8 loc.packetLen - loc.packetLen) % cfg.bulkoutSize = 0
    then none
    else some { alignTx loc with type := req.type }
  else some { loc with type := req.type }

/-- The rest of the loop body after a prepared request: the new variables, and whether the loop
goes on. -/
def afterPrepare (cfg : TxCfg) (loc : Loc) : Loc × Bool :=
  let loc := { loc with
    aggCnt := (loc.aggCnt + 1) % 256
    trascAggCnt := (loc.trascAggCnt + 1) % 256 }
  if loc.type ≠ .data then (loc, false)
  else if cfg.aggregation then
    let moved := loc.txLen >>> getShiftOffset cfg.bulkoutSize
    let loc := if loc.trascIdx ≠ moved then
        { loc with trascIdx := moved % 256, trascAggCnt := 0 } else loc
    (loc, decide (loc.trascAggCnt < cfg.maxBulkoutWdNum))
  else (loc, decide (loc.aggCnt ≠ 1))

/-! ## State -/

/-- How far the running call of `rtw_phl_add_tx_req` is; it holds `t_ring_list_lock`. -/
inductive AddPc where
  | idle
  /-- There is room in the ring. -/
  | decided (k : RingId) (req : XmitReq)
  /-- `core_idx` has been moved on. -/
  | advanced (k : RingId) (req : XmitReq)
  deriving DecidableEq

/-- How far the running handler is; `rest` is what is left of `t_fctrl_result`, each ring with
its `req_busy`. -/
inductive Pc where
  | idle
  /-- Between two rings. -/
  | next (rest : List (RingId × ℕ))
  /-- At the head of the loop of `_phl_handle_xmit_ring_usb`. -/
  | loop (k : RingId) (buf : UsbBuf) (loc : Loc) (rest : List (RingId × ℕ))
  /-- The request of the entry `rptr` has been prepared. -/
  | prepared (k : RingId) (buf : UsbBuf) (loc : Loc) (req : XmitReq) (rptr : ℕ)
    (rest : List (RingId × ℕ))
  /-- `phl_idx` has been set to `rptr`. -/
  | advance (k : RingId) (buf : UsbBuf) (loc : Loc) (rptr : ℕ) (rest : List (RingId × ℕ))
  /-- The loop has been left. -/
  | leave (k : RingId) (buf : UsbBuf) (loc : Loc) (rest : List (RingId × ℕ))

/-- Who consumed a request. -/
inductive Consumer where
  | handler
  | ringFree
  deriving DecidableEq, Repr

structure State where
  ring : RingId → TxRing
  life : ℕ → Life
  /-- `t_ring_free_list`. -/
  tRingFreeList : List ℕ
  /-- `mdata.usb_pkt_ofst` of the request at an address. -/
  usbPktOfst : ℕ → Bool
  mgmtTxbufList : List UsbBuf
  idleTxbufList : List UsbBuf
  h2cTxbufList : List UsbBuf
  addPc : AddPc
  pc : Pc
  /-- The buffers on the bus. -/
  inflight : List UsbBuf
  /-- The requests each ring has accepted. -/
  accepted : RingId → List XmitReq
  /-- The requests of each ring that have been recycled to the core. -/
  consumed : RingId → List (XmitReq × Consumer)
  /-- The results of `rtw_phl_add_tx_req`. -/
  returned : List (XmitReq × RtwPhlStatus)
  submitted : List Submission

/-- The pools after `_phl_alloc_txbuf_pool_usb`, and no request anywhere. Every ring list is
taken to be registered from the start, with the zeroed rings it gets when it is allocated. -/
def init (cfg : TxCfg) : State where
  ring := fun _ => { entry := fun _ => none, coreIdx := 0, phlIdx := 0, phlNextIdx := 0 }
  life := fun _ => .registered
  tRingFreeList := []
  usbPktOfst := fun _ => false
  mgmtTxbufList := (List.range cfg.txMgntBufNum).map fun i =>
    ⟨cfg.txBufNum + i, cfg.txMgntBufSize, .mgnt⟩
  idleTxbufList := (List.range cfg.txBufNum).map fun i => ⟨i, cfg.txBufSize, .data⟩
  h2cTxbufList := []
  addPc := .idle
  pc := .idle
  inflight := []
  accepted := fun _ => []
  consumed := fun _ => []
  returned := []
  submitted := []

/-! ## `rtw_phl_add_tx_req` -/

/-- The call up to the point where it has found room in the ring or gives up. -/
def addTxReq (s : State) (k : RingId) (req : XmitReq) : Option State :=
  if s.addPc ≠ .idle then none
  else if s.life k.ringList ≠ .registered then
    some { s with returned := s.returned ++ [(req, .failure)] }
  else if 0 < phlCalcAvailWptr (toU16 (s.ring k).phlIdx) (s.ring k).coreIdx maxPhlRingEntryNum then
    some { s with addPc := .decided k req }
  else some { s with returned := s.returned ++ [(req, .resource)] }

/-- The two writes of a call that has found room. -/
def addStep (s : State) : Option State :=
  match s.addPc with
  | .idle => none
  | .decided k req =>
    some { s with
      ring := Function.update s.ring k
        { s.ring k with coreIdx := ((s.ring k).coreIdx + 1) % maxPhlRingEntryNum }
      addPc := .advanced k req }
  | .advanced k req =>
    some { s with
      ring := Function.update s.ring k
        { s.ring k with
          entry := Function.update (s.ring k).entry (s.ring k).coreIdx (some req) }
      addPc := .idle
      accepted := Function.update s.accepted k (s.accepted k ++ [req])
      returned := s.returned ++ [(req, .success)] }

/-! ## Freeing ring lists -/

/-- `phl_deregister_tx_ring`. -/
def deregisterTxRing (s : State) (l : ℕ) : Option State :=
  if s.addPc ≠ .idle ∨ s.life l ≠ .registered then none
  else some { s with
    life := Function.update s.life l .deregistered
    tRingFreeList := s.tRingFreeList ++ [l] }

/-- The loop of `_phl_free_phl_tring_list`: the requests it recycles. -/
def freeLoop (ring : TxRing) : ℕ → ℕ → List XmitReq
  | 0, _ => []
  | fuel + 1, rptr =>
    if rptr = ring.coreIdx then []
    else match ring.entry (nextPtr rptr) with
      | none => []
      | some req => req :: freeLoop ring fuel (nextPtr rptr)

/-- The requests of a ring that `_phl_free_phl_tring_list` recycles. -/
def freeRing (ring : TxRing) : List XmitReq :=
  freeLoop ring maxPhlRingEntryNum (toU16 ring.phlIdx)

/-- `phl_free_deferred_tx_ring`. -/
def freeDeferredTxRing (s : State) : State :=
  { s with
    life := fun l => if l ∈ s.tRingFreeList then .freed else s.life l
    tRingFreeList := []
    consumed := fun k =>
      if k.ringList ∈ s.tRingFreeList
        then s.consumed k ++ (freeRing (s.ring k)).map (·, .ringFree)
        else s.consumed k }

/-! ## The handler -/

/-- `phl_check_xmit_ring_resource` and `phl_tx_flow_ctrl`, for the rings `order`. -/
def checkRings (s : State) (order : List RingId) : Option State :=
  if s.addPc = .idle ∧ order.Nodup ∧ ∀ k ∈ order, s.life k.ringList = .registered ∧
      0 < phlCalcAvailRptr (toU16 (s.ring k).phlIdx) (s.ring k).coreIdx maxPhlRingEntryNum then
    match s.pc with
    | .idle =>
      some { s with
        ring := fun k =>
          if k ∈ order then { s.ring k with phlNextIdx := nextPtr (toU16 (s.ring k).phlIdx) }
          else s.ring k
        pc := .next (order.map fun k =>
          (k, phlCalcAvailRptr (toU16 (s.ring k).phlIdx) (s.ring k).coreIdx
            maxPhlRingEntryNum)) }
    | _ => none
  else none

/-- `_phl_tx_flow_ctrl_usb` and the start of `_phl_handle_xmit_ring_usb`. -/
def nextRing (cfg : TxCfg) (s : State) (k : RingId) (reqBusy : ℕ) (rest : List (RingId × ℕ)) :
    State :=
  let pre := if cfg.paddingChk then usbTxAggPreprocess cfg (s.ring k) reqBusy
    else (idxNone, false)
  let start := fun buf => Pc.loop k buf { reqBusy, lastIdx := pre.1, isDummy := pre.2 } rest
  if k.tid = mgmtTid then
    match s.mgmtTxbufList with
    | [] => { s with pc := .next rest }
    | buf :: bufs => { s with mgmtTxbufList := bufs, pc := start buf }
  else
    match s.idleTxbufList with
    | [] => { s with pc := .next rest }
    | buf :: bufs => { s with idleTxbufList := bufs, pc := start buf }

/-- `mdata.usb_pkt_ofst` of a request when it is prepared. -/
def pktOfstOf (s : State) (loc : Loc) (req : XmitReq) : Bool :=
  s.usbPktOfst req.addr || marks loc

/-- One pass of the loop up to the update of `phl_idx`. -/
def loopStep (cfg : TxCfg) (s : State) (k : RingId) (buf : UsbBuf) (loc : Loc)
    (rest : List (RingId × ℕ)) (fillWd : Option ℕ) : State :=
  if loc.reqBusy = 0 then { s with pc := .leave k buf loc rest }
  else match (s.ring k).entry (toU16 (s.ring k).phlNextIdx) with
    | none => { s with pc := .leave k buf loc rest }
    | some req =>
      let ofst := pktOfstOf s loc req
      let s := { s with usbPktOfst := Function.update s.usbPktOfst req.addr ofst }
      match beforePrepare cfg loc req with
      | none => { s with pc := .leave k buf loc rest }
      | some loc =>
        let loc := prepareTxUsb loc req ofst fillWd
        if loc.pstatus = .success then
          { s with
            pc := .prepared k buf loc req (toU16 (s.ring k).phlNextIdx) rest
            consumed := Function.update s.consumed k (s.consumed k ++ [(req, .handler)]) }
        else { s with pc := .leave k buf loc rest }

/-- The update of `phl_idx`. -/
def setPhlIdx (s : State) (k : RingId) (buf : UsbBuf) (loc : Loc) (rptr : ℕ)
    (rest : List (RingId × ℕ)) : State :=
  { s with
    ring := Function.update s.ring k { s.ring k with phlIdx := rptr }
    pc := .advance k buf { loc with reqBusy := loc.reqBusy - 1 } rptr rest }

/-- The end of a pass: leave the loop, or move `phl_next_idx` on. -/
def advanceStep (cfg : TxCfg) (s : State) (k : RingId) (buf : UsbBuf) (loc : Loc) (rptr : ℕ)
    (rest : List (RingId × ℕ)) : State :=
  if (afterPrepare cfg loc).2 = false then
    { s with pc := .leave k buf (afterPrepare cfg loc).1 rest }
  else if loc.reqBusy ≠ 0 then
    { s with
      ring := Function.update s.ring k
        { s.ring k with
          phlNextIdx := if maxPhlRingEntryNum ≤ rptr + 1 then 0
            else (s.ring k).phlNextIdx + 1 }
      pc := .loop k buf (afterPrepare cfg loc).1 rest }
  else { s with pc := .loop k buf (afterPrepare cfg loc).1 rest }

/-- The end of `_phl_handle_xmit_ring_usb`; `urb` tells whether `os_usb_tx` takes the buffer. -/
def leaveStep (s : State) (k : RingId) (buf : UsbBuf) (loc : Loc) (rest : List (RingId × ℕ))
    (urb : Bool) : State :=
  if loc.pstatus = .success ∧ urb = true then
    { s with
      pc := .next rest
      inflight := s.inflight ++ [buf]
      submitted := s.submitted ++ [⟨k, buf, loc.segs, loc.txLen⟩] }
  else if loc.pstatus = .resource then { s with pc := .next rest }
  else if k.tid = mgmtTid then
    { s with pc := .next rest, mgmtTxbufList := s.mgmtTxbufList ++ [buf] }
  else { s with pc := .next rest, idleTxbufList := s.idleTxbufList ++ [buf] }

/-- One step of the running handler; `none` if it uses a ring list that has been freed. -/
def handlerStep (cfg : TxCfg) (s : State) (fillWd : Option ℕ) (urb : Bool) : Option State :=
  match s.pc with
  | .idle => none
  | .next [] => some { freeDeferredTxRing s with pc := .idle }
  | .next ((k, reqBusy) :: rest) =>
    if s.life k.ringList = .freed then none else some (nextRing cfg s k reqBusy rest)
  | .loop k buf loc rest =>
    if s.life k.ringList = .freed then none else some (loopStep cfg s k buf loc rest fillWd)
  | .prepared k buf loc _ rptr rest =>
    if s.life k.ringList = .freed then none else some (setPhlIdx s k buf loc rptr rest)
  | .advance k buf loc rptr rest =>
    if s.life k.ringList = .freed then none else some (advanceStep cfg s k buf loc rptr rest)
  | .leave k buf loc rest =>
    if s.life k.ringList = .freed then none else some (leaveStep s k buf loc rest urb)

/-! ## Steps -/

/-- `phl_tx_release_buf_usb`. -/
def txReleaseBufUsb (s : State) (buf : UsbBuf) : State :=
  match buf.type with
  | .h2c => { s with h2cTxbufList := s.h2cTxbufList ++ [buf] }
  | .mgnt => { s with mgmtTxbufList := s.mgmtTxbufList ++ [buf] }
  | _ => { s with idleTxbufList := s.idleTxbufList ++ [buf] }

inductive Event where
  /-- The core calls `rtw_phl_add_tx_req`, for a request of this ring. -/
  | add (k : RingId) (req : XmitReq)
  | addStep
  | deregister (ringList : ℕ)
  /-- The handler starts. -/
  | callback (order : List RingId)
  | handler (fillWd : Option ℕ) (urb : Bool)
  /-- The deferred free of `phl_datapath_stop`. -/
  | datapathStop
  /-- The bus is done with the buffer at this position of `inflight`. -/
  | complete (i : ℕ)
  deriving DecidableEq

def step (cfg : TxCfg) (s : State) : Event → Option State
  | .add k req => addTxReq s k req
  | .addStep => addStep s
  | .deregister l => deregisterTxRing s l
  | .callback order => checkRings s order
  | .handler fillWd urb => handlerStep cfg s fillWd urb
  | .datapathStop => some (freeDeferredTxRing s)
  | .complete i =>
    match s.inflight[i]? with
    | none => none
    | some buf => some (txReleaseBufUsb { s with inflight := s.inflight.eraseIdx i } buf)

end Rtl88x2cu.Trx.UsbTx
