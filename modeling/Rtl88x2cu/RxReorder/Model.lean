import Rtl88x2cu.Lib.SlotList
import Rtl88x2cu.Lib.WhileLoop

/-!
# RX reordering: model of the block-ack receive path

Shallow embedding of the RX reordering code of `phl/phl_rx.c` and `phl/phl_rx_agg.c`: the
sequence-number helpers, the block-ack session `phl_tid_ampdu_rx`, the release paths
(`phl_release_reorder_frame`, `phl_release_reorder_frames`, `phl_reorder_release`), the MPDU
entry point `phl_manage_sta_reorder_buf` and the block-ack request `rtw_phl_rx_bar`.

Packets are a type parameter `π`, since this part of the code only reads `r.mdata.seq` of a
packet and moves its pointer around; `seq : π → ℕ` is that field. `u16` and `u32` fields are
natural numbers with the reductions the C types imply. A function whose C body loops returns
`Option`: `none` would mean that a loop does not terminate.
-/

namespace Rtl88x2cu.RxReorder

/-! ## Sequence numbers -/

/-- `seq_sub`: `(sq1 - sq2) & SEQ_MASK`. -/
def seqSub (sq1 sq2 : ℕ) : ℕ := (sq1 + (0x1000 - sq2 % 0x1000)) % 0x1000

/-- `seq_less`: `((sq1 - sq2) & SEQ_MASK) > (SEQ_MODULO >> 1)`. -/
def seqLess (sq1 sq2 : ℕ) : Bool := decide (0x800 < seqSub sq1 sq2)

/-- `seq_inc`: `(sq + 1) & SEQ_MASK`. -/
def seqInc (sq : ℕ) : ℕ := (sq + 1) % 0x1000

/-! ## The block-ack session -/

/-- `struct phl_tid_ampdu_rx`, less the back pointers to the station and the driver. -/
structure TidAmpduRx (π : Type) where
  /-- Circular buffer of `buf_size` packet pointers. -/
  reorderBuf : List (Option π)
  /-- Arrival time in milliseconds (`u32`) of the packet in the same slot. -/
  reorderTime : List ℕ
  headSeqNum : ℕ
  storedMpduNum : ℕ
  ssn : ℕ
  bufSize : ℕ
  tid : ℕ
  started : Bool
  removed : Bool
  deriving DecidableEq, Repr

/-- `phl_tid_ampdu_rx_alloc`, for the case that the three allocations succeed. -/
def phlTidAmpduRxAlloc (π : Type) (ssn tid bufSize : ℕ) : TidAmpduRx π where
  reorderBuf := List.replicate bufSize none
  reorderTime := List.replicate bufSize 0
  headSeqNum := ssn
  storedMpduNum := 0
  ssn := ssn
  bufSize := bufSize
  tid := tid
  started := false
  removed := false

variable {π : Type}

/-- `reorder_index`: the slot of a sequence number. -/
def reorderIndex (r : TidAmpduRx π) (seq : ℕ) : ℕ := seqSub seq r.ssn % r.bufSize

/-- What a call into the reordering code works on: the session, the caller's `frames` list,
the packets handed back to the hardware interface, and whether the reorder timer of the
station is pending. -/
structure RxCtx (π : Type) where
  r : TidAmpduRx π
  frames : List π
  recycled : List π
  timer : Bool
  deriving DecidableEq, Repr

/-- The packet in slot `i` of the session. -/
def RxCtx.buf (c : RxCtx π) (i : ℕ) : Option π := slot c.r.reorderBuf i

/-- Overwrite `r->head_seq_num`. -/
def RxCtx.setHead (c : RxCtx π) (head : ℕ) : RxCtx π :=
  { c with r := { c.r with headSeqNum := head } }

/-- `hci_trx_ops->recycle_rx_pkt`. -/
def recycleRxPkt (c : RxCtx π) (pkt : π) : RxCtx π :=
  { c with recycled := c.recycled ++ [pkt] }

/-- `phl_recycle_rx_buf`, which ignores a `NULL` packet. -/
def phlRecycleRxBuf (c : RxCtx π) : Option π → RxCtx π
  | none => c
  | some pkt => recycleRxPkt c pkt

/-- `phl_release_reorder_frame`: hand the packet in slot `index` to `frames`, if there is one,
and advance the head by one either way. -/
def phlReleaseReorderFrame (c : RxCtx π) (index : ℕ) : RxCtx π :=
  match c.buf index with
  | none => c.setHead (seqInc c.r.headSeqNum)
  | some pkt =>
    { c with
      r := { c.r with
        storedMpduNum := (c.r.storedMpduNum + 0xffff) % 0x10000
        reorderBuf := c.r.reorderBuf.set index none
        headSeqNum := seqInc c.r.headSeqNum }
      frames := c.frames ++ [pkt] }

/-! ## `phl_reorder_release` -/

/-- The inner loop of the time-out scan, `for (i = (index + 1) % buf_size; i != j; ...)`, which
recycles what is left in the slots between `index` and `j`. -/
def recycleBetween (c : RxCtx π) (index j : ℕ) : Option (RxCtx π) :=
  (whileLoop (fun s : ℕ × RxCtx π => decide (s.1 ≠ j))
    (fun s => some ((s.1 + 1) % s.2.r.bufSize, phlRecycleRxBuf s.2 (s.2.buf s.1)))
    c.r.bufSize ((index + 1) % c.r.bufSize, c)).map Prod.snd

/-- Loop state of the time-out scan: the slot `j` under inspection, the number of holes skipped
since the last released packet, and whether the scan has left through
`goto set_release_timer`. -/
structure Scan (π : Type) where
  c : RxCtx π
  j : ℕ
  skipped : ℕ
  stop : Bool

/-- One iteration of the time-out scan. -/
def scanBody (index curTime : ℕ) (s : Scan π) : Option (Scan π) :=
  match s.c.buf s.j with
  | none => some { s with skipped := s.skipped + 1, j := (s.j + 1) % s.c.r.bufSize }
  | some _ =>
    -- `skipped && cur_time < r->reorder_time[j] + HT_RX_REORDER_BUF_TIMEOUT_MS`, in `u32`
    if s.skipped ≠ 0 ∧ curTime < (s.c.r.reorderTime.getD s.j 0 + 100) % 0x100000000 then
      some { s with stop := true }
    else do
      let c ← recycleBetween s.c index s.j
      let c := phlReleaseReorderFrame c s.j
      some { s with
        c := c.setHead ((c.r.headSeqNum + s.skipped) % 0x1000)
        j := (s.j + 1) % c.r.bufSize
        skipped := 0 }

/-- The time-out scan `for (j = (index + 1) % buf_size; j != index; ...)`. -/
def timeoutScan (c : RxCtx π) (index curTime : ℕ) : Option (Scan π) :=
  whileLoop (fun s => !s.stop && decide (s.j ≠ index)) (scanBody index curTime) c.r.bufSize
    { c := c, j := (index + 1) % c.r.bufSize, skipped := 1, stop := false }

/-- `while (r->reorder_buf[index])`: release the packets at the head while there is no hole. -/
def drain (c : RxCtx π) : Option (RxCtx π) :=
  whileLoop (fun c => (c.buf (reorderIndex c.r c.r.headSeqNum)).isSome)
    (fun c => some (phlReleaseReorderFrame c (reorderIndex c.r c.r.headSeqNum)))
    c.r.bufSize c

/-- The search for a packet left in the buffer,
`for (; j != (index - 1) % buf_size; j = (j + 1) % buf_size)` with `index` and `j` of type
`int`, so that `(index - 1) % buf_size` is `-1` for `index = 0`. Only its termination matters:
the slot found is not used. -/
def searchStored (c : RxCtx π) : Option ℕ :=
  let index := c.r.headSeqNum % c.r.bufSize
  whileLoop
    (fun j => decide ((j : ℤ) ≠ ((index : ℤ) - 1).tmod c.r.bufSize) && (c.buf j).isNone)
    (fun j => some ((j + 1) % c.r.bufSize)) c.r.bufSize index

/-- The label `set_release_timer`. -/
def setReleaseTimer (c : RxCtx π) : RxCtx π :=
  if c.r.removed then c else { c with timer := true }

/-- The end of `phl_reorder_release`: re-arm the timer while packets are stored, else cancel
it. -/
def rearmTimer (c : RxCtx π) : Option (RxCtx π) :=
  if c.r.storedMpduNum ≠ 0 then do
    let _ ← searchStored c
    some (setReleaseTimer c)
  else
    some { c with timer := false }

/-- `phl_reorder_release`, called at the time `curTime` in milliseconds. -/
def phlReorderRelease (c : RxCtx π) (curTime : ℕ) : Option (RxCtx π) :=
  let index := reorderIndex c.r c.r.headSeqNum
  if (c.buf index).isNone ∧ c.r.storedMpduNum ≠ 0 then do
    let s ← timeoutScan c index curTime
    if s.stop then some (setReleaseTimer s.c) else rearmTimer s.c
  else do
    let c ← drain c
    rearmTimer c

/-! ## Moving the window -/

/-- `phl_release_reorder_frames`: release the packets that precede `head` and make it the new
head of the window. -/
def phlReleaseReorderFrames (c : RxCtx π) (head : ℕ) : Option (RxCtx π) := do
  let c ← whileLoop
    (fun c : RxCtx π => seqLess c.r.headSeqNum head && decide (c.r.storedMpduNum ≠ 0))
    (fun c => some (phlReleaseReorderFrame c (reorderIndex c.r c.r.headSeqNum))) 0x1000 c
  some (c.setHead head)

/-- Put `pkt` in slot `index`, with its arrival time. -/
def storeMpdu (c : RxCtx π) (pkt : π) (index now : ℕ) : RxCtx π :=
  { c with r := { c.r with
      reorderBuf := c.r.reorderBuf.set index (some pkt)
      reorderTime := c.r.reorderTime.set index now
      storedMpduNum := (c.r.storedMpduNum + 1) % 0x10000 } }

/-- The step of `phl_manage_sta_reorder_buf` that moves the window when the MPDU exceeds it. -/
def makeRoom (c : RxCtx π) (mpduSeqNum : ℕ) : Option (RxCtx π) :=
  if seqLess mpduSeqNum ((c.r.headSeqNum + c.r.bufSize) % 0x10000) then some c
  else phlReleaseReorderFrames c (seqInc (seqSub mpduSeqNum c.r.bufSize))

/-- `phl_manage_sta_reorder_buf` from the check for an out-of-date packet on, with the session
already started. `now` and `now'` are the two readings of the clock on the way. -/
def manageStarted (seq : π → ℕ) (c : RxCtx π) (pkt : π) (now now' : ℕ) :
    Option (RxCtx π × Bool) :=
  let mpduSeqNum := seq pkt
  if seqLess mpduSeqNum c.r.headSeqNum then
    some (recycleRxPkt c pkt, true)
  else do
    let c ← makeRoom c mpduSeqNum
    let index := reorderIndex c.r mpduSeqNum
    if (c.buf index).isSome then
      some (recycleRxPkt c pkt, true)
    else if mpduSeqNum = c.r.headSeqNum ∧ c.r.storedMpduNum = 0 then
      some (c.setHead (seqInc c.r.headSeqNum), false)
    else do
      let c ← phlReorderRelease (storeMpdu c pkt index now) now'
      some (c, true)

/-- `phl_manage_sta_reorder_buf`: `true` if the packet has been stored or dropped, `false` if
the caller shall deliver it. -/
def phlManageStaReorderBuf (seq : π → ℕ) (c : RxCtx π) (pkt : π) (now now' : ℕ) :
    Option (RxCtx π × Bool) :=
  if c.r.started then
    manageStarted seq c pkt now now'
  else if seqLess (seq pkt) c.r.headSeqNum then
    -- an MPDU that precedes the starting sequence number shall not be reordered
    some (c, false)
  else
    manageStarted seq { c with r := { c.r with started := true } } pkt now now'

/-- The label `dont_reorder` of `phl_rx_reorder`: the packet itself joins `frames`. -/
def dontReorder (c : RxCtx π) (pkt : π) : RxCtx π :=
  { c with frames := c.frames ++ [pkt] }

/-- The body of `rtw_phl_rx_bar` for an existing session. -/
def rxBar (c : RxCtx π) (seq : ℕ) : Option (RxCtx π) :=
  if seqLess seq c.r.headSeqNum then some c else phlReleaseReorderFrames c seq

end Rtl88x2cu.RxReorder
