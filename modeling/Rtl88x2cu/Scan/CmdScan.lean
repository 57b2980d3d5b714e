import Rtl88x2cu.Dispatcher.TokenSlot
import Rtl88x2cu.Lib.Run
import Rtl88x2cu.Scan.SelectChnl

/-!
# A scan request

`phl/phl_cmd_scan.c` runs a scan as a request for the command token: the dispatcher thread calls
`acquired` and `abort` of the request and delivers its messages, and the thread that delivers
`MSG_EVT_SCAN_END` gives the token back. Other threads cancel the request, stop the dispatcher and
send the message of the timer; they may act between any two steps of the dispatcher thread.

Of the dispatcher there is the token slot of the request and the messages of the scan module. The
thread may take any of them, since a message may be pending for any time.
-/

namespace Rtl88x2cu.Scan.Cmd

open Dispatcher (TokenSlot ReqSlot RtwPhlStatus OpType)

/-! ## Model -/

/-- The events of the scan module. -/
inductive Evt where
  | scanStart
  | swchStart
  | swchDone
  | listenStateExpire
  | scanEnd
  deriving DecidableEq, Repr

/-- The completion routines of the messages: `_cmd_swch_done_notify_cb`,
`_cmd_scan_timer_notify_cb` and `_cmd_abort_notify_cb`. -/
inductive Completion where
  | none
  | swchDone
  | timer
  | abort
  deriving DecidableEq, Repr

/-- A message of the scan module in the dispatcher. -/
structure ScanMsg where
  evt : Evt
  cancelled : Bool
  ownerReq : Bool
  completion : Completion
  deriving DecidableEq, Repr

/-- `param->result`. -/
inductive ScanResult where
  | complete
  | cancel
  | abort
  deriving DecidableEq, Repr

/-- Where the dispatcher thread is: between messages; before the start of `acquired`, before it
sends `MSG_EVT_SCAN_START`, at its label `error`; before the message handler of the request, with
whether the message has failed and whether it says that there is no I/O; past the release of the
token; before the recycling of a message, with whether it was cancelled; before `abort`, with
whether it is called for a token operation. -/
inductive Pc where
  | loop
  | acquired
  | sendStart
  | refused
  | handle (m : ScanMsg) (failed cannotIo : Bool)
  | ending (m : ScanMsg) (cannotIo : Bool)
  | recycle (m : ScanMsg) (cancelled cannotIo : Bool)
  | abort (fromOp : Bool)
  deriving DecidableEq, Repr

/-- `scan_timer`: how often it was initialised and released, and whether it is armed. -/
structure Timer where
  inits : ℕ
  releases : ℕ
  armed : Bool
  deriving DecidableEq, Repr

/-- The hardware: whether TX is paused and the RX filter is that of a scan; how often this request
has set and undone both. -/
structure Hw where
  txPaused : Bool
  rxScan : Bool
  sets : ℕ
  undos : ℕ
  deriving DecidableEq, Repr

/-- A scan request in the dispatcher. `leaving` says that the thread is in
`dispr_thread_leave_hdl`, `ioLost` that the dispatcher was stopped, the device removed or a message
marked with `MSG_INDC_CANNOT_IO`; `completes` counts the calls of `scan_complete`. -/
structure St where
  slot : TokenSlot
  msgs : List ScanMsg
  pc : Pc
  leaving : Bool
  removed : Bool
  stAcquire : Bool
  stStarted : Bool
  stDfIo : Bool
  result : Option ScanResult
  param : ScanParam
  timer : Timer
  hw : Hw
  completes : ℕ
  ioLost : Bool
  deriving DecidableEq, Repr

/-- A request that `rtw_phl_cmd_scan_request` has accepted, in the slot `i`. -/
def rtwPhlCmdScanRequest (i : ReqSlot) (r : ScanReq) (opch : List ℕ) : St where
  slot := ⟨i, { enq := true }, false, {}, true⟩
  msgs := []
  pc := .loop
  leaving := false
  removed := false
  stAcquire := false
  stStarted := false
  stDfIo := false
  result := none
  param := reqInit r opch
  timer := ⟨0, 0, false⟩
  hw := ⟨false, false, 0, 0⟩
  completes := 0
  ioLost := false

/-- What the environment decides in a step of the thread: whether `max_scan_time` is over, whether
the dispatcher has an idle message, whether the listen state is extended. -/
structure Choice where
  timedOut : Bool
  room : Bool
  ext : Bool
  deriving DecidableEq, Repr

/-! ### The end of a scan -/

/-- `_cmd_scan_end`. -/
def cmdScanEnd (s : St) : St :=
  let s := { s with
    timer := { s.timer with armed := false, releases := s.timer.releases + 1 }
    completes := s.completes + 1 }
  if s.stStarted && !s.stDfIo then
    { s with hw := { s.hw with rxScan := false, txPaused := false, undos := s.hw.undos + 1 } }
  else s

/-- `_cmd_abort_notify_cb`. -/
def cmdAbortNotifyCb (s : St) (cannotIo : Bool) : St :=
  cmdScanEnd (if cannotIo then { s with stDfIo := true } else s)

/-- `phl_disp_eng_send_msg` for a message of the scan module. A message that is refused because the
request is about to unload is recycled at once. -/
def phlDispEngSendMsg (s : St) (room : Bool) (evt : Evt) (completion : Completion)
    (sendInAbort : Bool) : St × RtwPhlStatus :=
  if !s.slot.started then (s, .unexpectedError)
  else if !s.slot.maySend then (s, .invalidParam)
  else if !room then (s, .resource)
  else if s.slot.active && s.slot.status.lastPermit && !sendInAbort then
    (if completion = .abort then cmdAbortNotifyCb s false else s, .failure)
  else ({ s with msgs := s.msgs ++ [⟨evt, false, s.slot.active, completion⟩] }, .success)

/-- `_cmd_abort_notify`. -/
def cmdAbortNotify (s : St) (abort room : Bool) : St :=
  if s.stAcquire then
    let (s, pstatus) := phlDispEngSendMsg
      { s with result := some .cancel } room .scanEnd .abort abort
    if pstatus = .success then s
    else
      cmdAbortNotifyCb
        (if pstatus = .unexpectedError ∨ s.removed then { s with stDfIo := true } else s) false
  else { s with result := some .abort, completes := s.completes + 1 }

/-! ### Messages -/

/-- `_cmd_scan_timer`. -/
def cmdScanTimer (s : St) (room : Bool) : St :=
  (phlDispEngSendMsg s room .listenStateExpire .timer false).1

/-- The completion routine of a message that is recycled. -/
def complete (s : St) (m : ScanMsg) (cancelled cannotIo room : Bool) : St :=
  match m.completion with
  | .none => s
  | .swchDone => s
  | .timer => if cancelled then cmdScanTimer s room else s
  | .abort => cmdAbortNotifyCb s cannotIo

/-- The scan is on a channel that it went back to. -/
def onBackop (p : ScanParam) : Bool :=
  match p.scanCh with
  | none => false
  | some ch => ch.scanMode = .backopMode

/-- `MSG_EVT_SWCH_START` in `_cmd_scan_hdl_internal_evt`. -/
def swchStart (s : St) (room : Bool) : Option St :=
  let txPause := !onBackop s.param
  match selectChnl s.param with
  | none => none
  | some .divideByZero => none
  | some .null => some (phlDispEngSendMsg s room .scanEnd .none false).1
  | some (.channel scanCh p) =>
    let backop : Bool := scanCh.scanMode = .backopMode
    -- TX is paused before the channel is switched, and resumed after it
    let (txPaused, txPause) :=
      if !backop && !txPause then (true, true) else (s.hw.txPaused, txPause)
    let txPaused := if backop && txPause then false else txPaused
    some (phlDispEngSendMsg { s with
      param := p
      hw := { s.hw with txPaused := txPaused }
      timer := { s.timer with armed := true } } room .swchDone .swchDone false).1

/-- `_cmd_scan_hdl_internal_evt`; `none` where it reads a channel that is not there. -/
def cmdScanHdlInternalEvt (s : St) (m : ScanMsg) (cannotIo : Bool) (c : Choice) : Option St :=
  let recycle := fun s : St => { s with pc := .recycle m false cannotIo }
  match m.evt with
  | .scanStart =>
    some (recycle (phlDispEngSendMsg { s with
      hw := { s.hw with txPaused := true, rxScan := true, sets := s.hw.sets + 1 }
      stStarted := true } c.room .swchStart .none false).1)
  | .listenStateExpire =>
    match s.param.scanCh with
    | none => none
    | some _ =>
      if c.ext then some (recycle { s with timer := { s.timer with armed := true } })
      else some (recycle (phlDispEngSendMsg s c.room .swchStart .none false).1)
  | .swchStart => (swchStart s c.room).map recycle
  | .swchDone =>
    match s.param.scanCh with
    | none => none
    | some _ => some (recycle s)
  | .scanEnd =>
    let (slot, pstatus) := s.slot.freeToken
    if pstatus = .success then
      some { s with slot := slot, result := some .complete, pc := .ending m cannotIo }
    else some (recycle { s with slot := slot })

/-- `_cmd_scan_fail_ev_hdlr`. -/
def cmdScanFailEvHdlr (s : St) (m : ScanMsg) (cannotIo : Bool) (c : Choice) : St :=
  let recycle := fun s : St => { s with pc := .recycle m false cannotIo }
  match m.evt with
  | .scanStart | .swchStart | .swchDone =>
    recycle (phlDispEngSendMsg s c.room .scanEnd .none false).1
  | .listenStateExpire => recycle s
  | .scanEnd =>
    let (slot, pstatus) := s.slot.freeToken
    if pstatus = .success then
      { s with
        slot := slot
        stDfIo := s.stDfIo || cannotIo
        pc := .ending m cannotIo }
    else recycle { s with slot := slot }

/-! ### The dispatcher thread -/

/-- The start of `deregister_cur_cmd_req`: the messages of the module are cancelled. -/
def unload (s : St) : St :=
  { s with
    slot := s.slot.unload
    msgs := s.msgs.map fun m => { m with cancelled := true, ownerReq := false } }

/-- The start of `deregister_cur_cmd_req` with a notification. -/
def unloadNotify (s : St) (fromOp : Bool) : St :=
  let s := unload s
  { s with slot := s.slot.setLastPermit true, pc := .abort fromOp }

/-- `_phl_cmd_scan_req_abort`, and the end of `deregister_cur_cmd_req` or of the abort of a request
that waits. -/
def phlCmdScanReqAbort (s : St) (fromOp room : Bool) : St :=
  let s := cmdAbortNotify s true room
  let slot := (s.slot.setLastPermit false).release
  { s with slot := if fromOp then slot.finishOp else slot, pc := .loop }

/-- The thread takes a token operation of the request from the queue. -/
def handleTokenOp (s : St) : St :=
  match s.slot.freeReqInfo.type with
  | some .freeCmdReq =>
    if s.slot.status.run then
      let s := unload s
      { s with slot := s.slot.release.finishOp }
    else { s with slot := s.slot.finishOp }
  | some .cancelCmdReq =>
    if s.slot.status.enq then { s with pc := .abort true }
    else if s.slot.status.run then unloadNotify s true
    else { s with slot := s.slot.finishOp }
  | _ => { s with slot := s.slot.finishOp }

/-- The next step of the thread, when it is not between messages. -/
def threadStep (s : St) (c : Choice) : Option St :=
  match s.pc with
  | .loop => none
  | .acquired =>
    if c.timedOut then some { s with pc := .refused }
    else some { s with timer := { s.timer with inits := s.timer.inits + 1 }, pc := .sendStart }
  | .sendStart =>
    let (s, pstatus) := phlDispEngSendMsg s c.room .scanStart .none false
    if pstatus = .success then some { s with stAcquire := true, pc := .loop }
    else some { s with timer := { s.timer with releases := s.timer.releases + 1 }, pc := .refused }
  | .refused =>
    -- `acquired` fails, and the request is deregistered without a notification
    let s := unload (cmdAbortNotify s false c.room)
    some { s with slot := s.slot.release, pc := .loop }
  | .handle m failed cannotIo =>
    if failed then some (cmdScanFailEvHdlr s m cannotIo c)
    else cmdScanHdlInternalEvt s m cannotIo c
  | .ending m cannotIo => some { cmdScanEnd s with pc := .recycle m false cannotIo }
  | .recycle m cancelled cannotIo =>
    some { complete s m cancelled cannotIo c.room with pc := .loop }
  | .abort fromOp => some (phlCmdScanReqAbort s fromOp c.room)

/-- What becomes of a message that the thread takes: it is cancelled, a module fails it, or it gets
to the current request. -/
inductive Outcome where
  | cancelled
  | failed
  | passed
  deriving DecidableEq, Repr

/-- The thread takes a message from the queue: `is_msg_canceled`, and `msg_dispatch` up to
`cur_req_hdl`. -/
def takeMsg (s : St) (m : ScanMsg) (o : Outcome) (cannotIo : Bool) : Option St :=
  if m ∈ s.msgs then
    let s := { s with msgs := s.msgs.erase m, ioLost := s.ioLost || cannotIo }
    match o with
    | .cancelled => some { s with pc := .recycle m true cannotIo }
    | .failed =>
      if s.slot.started ∧ ¬m.cancelled then
        if m.ownerReq ∧ s.slot.active then some { s with pc := .handle m true cannotIo }
        else some { s with pc := .recycle m false cannotIo }
      else none
    | .passed =>
      if s.slot.started ∧ ¬m.cancelled then
        if s.slot.active then some { s with pc := .handle m false cannotIo }
        else some { s with pc := .recycle m false cannotIo }
      else none
  else none

/-- What happens next. The thread acquires the token for the request, goes on, takes a message or a
token operation, leaves, recycles a message while it leaves, and aborts the waiting request. Other
threads: the timer expires, the request is cancelled, the dispatcher stopped, the device removed.
Another scan request has left a message behind, and ends. -/
inductive Act where
  | acquire
  | thread (c : Choice)
  | take (m : ScanMsg) (o : Outcome) (cannotIo : Bool)
  | tokenOp
  | leave
  | drain (m : ScanMsg) (cannotIo : Bool)
  | leaveReq
  | timer (room : Bool)
  | cancel
  | stop
  | remove
  | otherMsg (evt : Evt)
  | otherEnd
  deriving DecidableEq, Repr

/-- One step. -/
def step (s : St) : Act → Option St
  | .acquire =>
    if s.pc = .loop ∧ ¬s.leaving ∧ s.slot.started ∧ s.slot.status.enq then
      some { s with slot := s.slot.take, pc := .acquired }
    else none
  | .thread c => threadStep s c
  | .take m o cannotIo => if s.pc = .loop ∧ ¬s.leaving then takeMsg s m o cannotIo else none
  | .tokenOp =>
    if s.pc = .loop ∧ ¬s.leaving ∧ s.slot.freeReqInfo.used then some (handleTokenOp s) else none
  | .leave =>
    if s.pc = .loop ∧ ¬s.leaving ∧ ¬s.slot.started then
      let s := { s with leaving := true }
      some (if s.slot.cur then unloadNotify s false else s)
    else none
  | .drain m cannotIo =>
    if s.pc = .loop ∧ s.leaving ∧ m ∈ s.msgs then
      some { s with
        msgs := s.msgs.erase m
        ioLost := s.ioLost || cannotIo
        pc := .recycle m m.cancelled cannotIo }
    else none
  | .leaveReq =>
    if s.pc = .loop ∧ s.leaving ∧ s.slot.status.enq then some { s with pc := .abort false }
    else none
  | .timer room =>
    if s.timer.armed then
      some (cmdScanTimer { s with timer := { s.timer with armed := false } } room)
    else none
  | .cancel => some { s with slot := s.slot.cancelTokenReq.1 }
  | .stop => some { s with slot := s.slot.stopPrior, ioLost := true }
  | .remove => some { s with removed := true, ioLost := true }
  | .otherMsg evt =>
    if evt = .scanEnd ∨ evt = .listenStateExpire then
      some { s with msgs := s.msgs ++ [⟨evt, false, false, .none⟩] }
    else none
  | .otherEnd => some { s with hw := { s.hw with rxScan := false, txPaused := false } }

end Rtl88x2cu.Scan.Cmd
