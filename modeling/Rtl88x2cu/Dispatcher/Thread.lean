import Rtl88x2cu.Dispatcher.Model

/-!
# Command dispatcher: the background thread

The thread of a dispatcher: `dispr_thread_loop_hdl` with the token operations and the dispatch of
a message, and `dispr_thread_leave_hdl` when it stops. The thread calls completion routines, the
`acquired` and `abort` routines of requests and the message handlers; during such a call other
threads, and the callback itself, may call into the dispatcher.

The loops of the source that contain callbacks, and so may run for ever, are cut into segments at
their heads. `disprStep` is the machine of the thread and its environment.
-/

namespace Rtl88x2cu.Dispatcher

open CmdDispatcher

/-- The callbacks of the dispatcher thread. -/
inductive BkCall where
  /-- A message handler, in the dispatch of a message. -/
  | msg (c : MsgCall)
  /-- The completion routine of a message. -/
  | completion (priv : ℕ) (id : MsgId)
  /-- `req.acquired`. -/
  | acquired (i : ReqSlot)
  /-- `req.abort`. -/
  | abort (i : ReqSlot)
  deriving DecidableEq, Repr

/-- Programs of the dispatcher thread. -/
abbrev BkProg (α : Type) : Type := Prog CmdDispatcher BkCall MdlRet α

/-! ## Recycling a message -/

/-- The call of the completion routine, as the pool sees it: the indicator of the message says
whether it was cancelled. -/
def MsgPool.fireCompletion (p : MsgPool) (i : MsgSlot) : MsgPool :=
  ({ p with notified := true }.edit i fun m =>
    { m with id := { m.id with indcCancel := m.id.indcCancel || m.status.cancel } }).record
      (.fired (p.stamp i))

/-- After the completion routine has returned. -/
def MsgPool.clrNotify (p : MsgPool) (i : MsgSlot) : MsgPool :=
  p.edit i fun m => { m with status := { m.status with notifyComplete := false } }

/-- `on_abort_msg_complete`. -/
def onAbortMsgComplete (w : CmdDispatcher) : CmdDispatcher :=
  ((w.onStatus fun st => { st with waitAbortMsgDone := false }).pushBackTokenOpInfo .renew
    .renewCmdReq 0xff).1

/-- `push_back_idle_msg` after the completion routine. -/
def recycleMsg (w : CmdDispatcher) (i : MsgSlot) : CmdDispatcher :=
  (if (w.msgs.pool i).status.forAbort then onAbortMsgComplete w else w).onMsgs fun p =>
    { (p.putIdle i).record (.recycled (p.stamp i)) with hand := none }

/-- The first part of `push_back_idle_msg`. -/
def notifyCompletion (i : MsgSlot) : BkProg Unit := do
  let w ← Prog.get
  match (w.msgs.pool i).completion with
  | none => pure ()
  | some priv =>
    if (w.msgs.pool i).status.notifyComplete then
      Prog.modify fun w => w.onMsgs fun p => p.fireCompletion i
      let w ← Prog.get
      let _ ← Prog.call (.completion priv (w.msgs.pool i).id)
      Prog.modify fun w => w.onMsgs fun p => p.clrNotify i
    else
      pure ()

/-- `push_back_idle_msg`. -/
def pushBackIdleMsg (i : MsgSlot) : BkProg Unit := do
  notifyCompletion i
  Prog.modify fun w => recycleMsg w i

/-! ## Token requests -/

/-- `clear_pending_msg`. -/
def clearPendingMsg (w : CmdDispatcher) : CmdDispatcher :=
  if w.status.clrPendMsg then
    { w with status := { w.status with clrPendMsg := false }, msgs := w.msgs.clearPending }
  else w

/-- The body of the loop of `deregister_cur_cmd_req` over the message pool. -/
def cancelOwned (moduleId : ℕ) (w : CmdDispatcher) (i : MsgSlot) : CmdDispatcher :=
  if (w.msgs.pool i).id.mdlId = moduleId then
    let w := w.onMsgs fun p => (p.edit i fun m =>
      { m with status := { m.status with ownerReq := false } }).cancelMsg i
    if (w.msgs.pool i).status.pending then clearPendingMsg w.disprClrPendingMsg else w
  else w

/-- The start of `deregister_cur_cmd_req`, up to the abort notification. -/
def unloadReq (w : CmdDispatcher) (i : ReqSlot) : CmdDispatcher :=
  (List.finRange 24).foldl (cancelOwned (w.reqs.pool i).moduleId)
    (w.onReqs fun p => p.editStatus i fun st => { st with run := false })

/-- `push_back_idle_req`. -/
def pushBackIdleReq (w : CmdDispatcher) (i : ReqSlot) : CmdDispatcher :=
  { w with
    reqs := { w.reqs.editStatus i fun _ => {} with idleQ := pqPush w.reqs.idleQ i }
    msgs := { w.msgs with
      pendingEvt := Function.update w.msgs.pendingEvt (w.reqs.pool i).moduleId msgEvtMax } }

/-- The end of `deregister_cur_cmd_req`. -/
def releaseToken (w : CmdDispatcher) (i : ReqSlot) : CmdDispatcher :=
  (pushBackIdleReq w i).onReqs fun p => { p with tokenCnt := p.tokenCnt - 1, cur := none }

/-- Set or clear `REQ_STATUS_LAST_PERMIT`. -/
def setLastPermit (b : Bool) (i : ReqSlot) (w : CmdDispatcher) : CmdDispatcher :=
  w.onReqs fun p => p.editStatus i fun st => { st with lastPermit := b }

/-- The abort notification of `deregister_cur_cmd_req`. -/
def abortCur (notify : Bool) (i : ReqSlot) : BkProg Unit :=
  if notify then do
    Prog.modify (setLastPermit true i)
    let _ ← Prog.call (.abort i)
    Prog.modify (setLastPermit false i)
  else
    pure ()

/-- `deregister_cur_cmd_req`. -/
def deregisterCurCmdReq (notify : Bool) : BkProg Unit := do
  let w ← Prog.get
  match w.reqs.cur with
  | none => pure ()
  | some i =>
    Prog.modify fun w => unloadReq w i
    abortCur notify i
    Prog.modify fun w => releaseToken w i

/-- The start of `register_cur_cmd_req`, up to the call of `acquired`. -/
def takeToken (w : CmdDispatcher) (i : ReqSlot) : CmdDispatcher :=
  w.onReqs fun p =>
    { p.editStatus i fun st => { st with run := true, prepare := false } with
      cur := some i
      tokenCnt := p.tokenCnt + 1
      hand := none }

/-- `register_cur_cmd_req`. -/
def registerCurCmdReq (i : ReqSlot) : BkProg Bool := do
  Prog.modify fun w => takeToken w i
  let ret ← Prog.call (.acquired i)
  if ret = .fail then
    deregisterCurCmdReq false
    pure false
  else
    pure true

/-- `send_bk_msg_phy_on`. -/
def sendBkMsgPhyOn (w : CmdDispatcher) : CmdDispatcher :=
  (w.disprSendMsg { mdlId := phlMdlPowerMgnt, evtId := 1 } (some {})).1

/-- `send_bk_msg_phy_idle`. -/
def sendBkMsgPhyIdle (w : CmdDispatcher) : CmdDispatcher :=
  (w.disprSendMsg { mdlId := phlMdlPowerMgnt, evtId := 2 } (some {})).1

/-- `dispr_process_token_req` when no request waits. -/
def becomeIdle (w : CmdDispatcher) : CmdDispatcher :=
  if w.status.notifyIdle then w
  else sendBkMsgPhyIdle (w.onStatus fun st => { st with notifyIdle := true })

/-- `dispr_process_token_req` when a request waits. -/
def becomeActive (w : CmdDispatcher) : CmdDispatcher :=
  if w.status.notifyIdle then
    sendBkMsgPhyOn (w.onStatus fun st => { st with notifyIdle := false })
  else w

/-- A request is taken out of the wait queue to be aborted. -/
def takeWaiting (w : CmdDispatcher) (i : ReqSlot) : CmdDispatcher :=
  w.onReqs fun p => { p with waitQ := pqDelNode p.waitQ i, hand := some i }

/-- A request that was taken out of the wait queue goes back to the idle queue. -/
def putReqBack (w : CmdDispatcher) (i : ReqSlot) : CmdDispatcher :=
  (pushBackIdleReq w i).onReqs fun p => { p with hand := none }

/-- The abort of a request that waits, and its recycling. -/
def abortWaiting (i : ReqSlot) : BkProg Unit := do
  let _ ← Prog.call (.abort i)
  Prog.modify fun w => putReqBack w i

/-! ## The thread -/

/-- Where the thread is. -/
inductive Pc where
  /-- The head of the loop of `background_thread_hdl`. -/
  | loop
  /-- The head of the loop of `token_op_hanler`. -/
  | ops
  /-- The start of `dispr_process_token_req`. -/
  | proc
  /-- The head of its loop. -/
  | reg
  /-- The end of an iteration of `token_op_hanler`. -/
  | fin
  /-- `dispr_thread_loop_hdl` after the token operations. -/
  | msg
  /-- The start of `dispr_thread_leave_hdl`. -/
  | leave
  /-- The head of the outer loop of `clear_waiting_msg`. -/
  | leaveMsgs
  /-- The head of its second inner loop. -/
  | leaveWait
  /-- The head of the outer loop of `clear_wating_req`. -/
  | leaveReqs
  /-- The head of its inner loop. -/
  | leaveWaitReqs
  | stopped
  deriving DecidableEq, Repr

/-- `TOKEN_OP_FREE_CMD_REQ` in `_handle_token_op_info`. -/
def handleFree (i : ReqSlot) : BkProg Pc := do
  let w ← Prog.get
  if (w.reqs.pool i).status.run then
    deregisterCurCmdReq false
    pure .proc
  else
    pure .fin

/-- `TOKEN_OP_CANCEL_CMD_REQ` in `_handle_token_op_info`. -/
def handleCancel (i : ReqSlot) : BkProg Pc := do
  let w ← Prog.get
  if (w.reqs.pool i).status.enq then
    Prog.modify fun w => takeWaiting w i
    abortWaiting i
    pure .fin
  else if (w.reqs.pool i).status.run then
    deregisterCurCmdReq true
    pure .proc
  else
    pure .fin

/-- `_handle_token_op_info`, up to its calls of `dispr_process_token_req`. -/
def handleTokenOpInfo (n : OpNode) : BkProg Pc := do
  let w ← Prog.get
  let info := w.ops.info n
  match info.type with
  | some .renewCmdReq => pure .proc
  | some .addCmdReq => pure .proc
  | some .freeCmdReq => if h : info.data < 8 then handleFree ⟨info.data, h⟩ else pure .fin
  | some .cancelCmdReq => if h : info.data < 8 then handleCancel ⟨info.data, h⟩ else pure .fin
  | none => pure .fin

/-- The thread has taken an op node from the queue. -/
def takeOp (w : CmdDispatcher) (n : OpNode) (q : PhlQueue OpNode) : CmdDispatcher :=
  w.onOps fun o => { o with
    q := q
    handling := some n
    handled := o.handled ++ [w.opRecord n] }

/-- `info->used = false` in `token_op_hanler`. -/
def finishOp (w : CmdDispatcher) : CmdDispatcher :=
  match w.ops.handling with
  | none => w
  | some n => w.onOps fun o => { o with
      info := Function.update o.info n { o.info n with used := false }
      handling := none }

/-- One iteration of `token_op_hanler`. -/
def tokenOpHanler : BkProg Pc := do
  let w ← Prog.get
  match pqPop w.ops.q with
  | none => pure .msg
  | some (n, q) =>
    Prog.modify fun w => takeOp w n q
    handleTokenOpInfo n

/-- The tests at the start of `dispr_process_token_req`. -/
def processTokenReq : BkProg Pc := do
  let w ← Prog.get
  if !w.status.started || decide (0 < w.reqs.tokenCnt) || w.status.waitAbortMsgDone then
    pure .fin
  else
    pure .reg

/-- One iteration of the loop of `dispr_process_token_req`. -/
def registerNext : BkProg Pc := do
  let w ← Prog.get
  match w.reqs.popFrontWaitReq with
  | none =>
    Prog.modify becomeIdle
    pure .fin
  | some (i, p) =>
    Prog.modify fun w => { w with reqs := p }
    Prog.modify becomeActive
    let ok ← registerCurCmdReq i
    pure (if ok then .fin else .reg)

/-- `is_special_msg`. -/
def isSpecialMsg (w : CmdDispatcher) (id : MsgId) : Bool :=
  w.status.cannotIo &&
    (decide (w.exclusiveMdl = id.mdlId) || decide (id.evtId = msgEvtDevCannotIo) ||
      decide (id.evtId = msgEvtDevResumeIo) || decide (id.evtId = 1) || decide (id.evtId = 2))

/-- `is_msg_canceled`: the message as the function leaves it, and its answer. -/
def isMsgCanceled (w : CmdDispatcher) (m : MsgEx) : MsgEx × Bool :=
  let pendingEvt := w.msgs.pendingEvt m.id.mdlId
  if !w.status.started || m.status.cancel then (m, true)
  else if pendingEvt ≠ msgEvtMax ∧ pendingEvt ≠ m.id.evtId then
    ({ m with status := { m.status with cancel := true } }, true)
  else if w.status.cannotIo then
    if isSpecialMsg w m.id then ({ m with id := { m.id with indcCannotIo := true } }, false)
    else if !m.status.pendingDuringCannotIo then
      ({ m with
          status := { m.status with cancel := true }
          id := { m.id with indcCannotIo := true } }, true)
    else ({ m with status := { m.status with pending := true } }, false)
  else (m, false)

/-- Whether there is a current request that runs and is not cancelled. -/
def reqActive (w : CmdDispatcher) : Bool :=
  match w.reqs.cur with
  | none => false
  | some i => (w.reqs.pool i).status.run && !(w.reqs.pool i).status.cancel

/-- What the dispatch of the message in a slot sees. -/
def viewOf (i : MsgSlot) (w : CmdDispatcher) : View where
  msg := w.msgs.pool i
  modules := w.modules
  ctrlPresent := w.status.ctrlPresent
  reqActive := reqActive w

/-- Write the message of a dispatch back to its slot. -/
def putView (i : MsgSlot) (w : CmdDispatcher) (v : View) : CmdDispatcher :=
  w.onMsgs fun p => p.set i v.msg

/-- The label `reschedule` of `msg_dispatch`. -/
def reschedule (w : CmdDispatcher) (i : MsgSlot) : CmdDispatcher :=
  w.onMsgs fun p =>
    { (if (p.pool i).status.pending then p.pushBackPendingMsg i else p.pushBackWaitMsg i) with
      hand := none }

/-- `msg_dispatch`. -/
def msgDispatchIn (i : MsgSlot) : BkProg Unit := do
  let out ← Prog.focus (viewOf i) (putView i) BkCall.msg msgDispatch
  match out with
  | .reschedule => Prog.modify fun w => reschedule w i
  | .recycle => pushBackIdleMsg i

/-- The handling of a message taken from the wait queue. -/
def handleMsg (i : MsgSlot) : BkProg Unit := do
  let w ← Prog.get
  let r := isMsgCanceled w (w.msgs.pool i)
  Prog.modify fun w => w.onMsgs fun p => p.set i r.1
  if r.2 then
    pushBackIdleMsg i
  else
    Prog.modify fun w => w.onMsgs fun p => p.edit i fun m => m.andBitmaps w.modules.bitmap
    msgDispatchIn i

/-- `dispr_thread_loop_hdl` after the token operations. -/
def threadMsg : BkProg Pc := do
  let w ← Prog.get
  match w.msgs.popFrontWaitMsg with
  | none => pure .loop
  | some (i, p) =>
    Prog.modify fun w => { w with msgs := p }
    handleMsg i
    pure .loop

/-- The head of the loop of `background_thread_hdl` and the start of `dispr_thread_loop_hdl`. -/
def threadLoop : BkProg Pc := do
  let w ← Prog.get
  if w.status.threadStop then
    pure .leave
  else
    Prog.modify clearPendingMsg
    pure .ops

/-- The outer loop of `clear_waiting_msg`. -/
def clearWaitingMsg : BkProg Pc := do
  let w ← Prog.get
  if w.msgs.idleQ.cnt = 24 then
    pure .leaveReqs
  else
    Prog.modify fun w => w.onMsgs MsgPool.unpendAll
    pure .leaveWait

/-- The second inner loop of `clear_waiting_msg`. -/
def clearWaitQ : BkProg Pc := do
  let w ← Prog.get
  match w.msgs.popFrontWaitMsg with
  | none => pure .leaveMsgs
  | some (i, p) =>
    Prog.modify fun w => { w with msgs := p }
    pushBackIdleMsg i
    pure .leaveWait

/-- The outer loop of `clear_wating_req`. -/
def clearWatingReq : BkProg Pc := do
  let w ← Prog.get
  pure (if w.reqs.idleQ.cnt = 8 then .stopped else .leaveWaitReqs)

/-- The inner loop of `clear_wating_req`. -/
def clearReqWaitQ : BkProg Pc := do
  let w ← Prog.get
  match w.reqs.popFrontWaitReq with
  | none => pure .leaveReqs
  | some (i, p) =>
    Prog.modify fun w => { w with reqs := p }
    abortWaiting i
    pure .leaveWaitReqs

/-- The segments of the thread. -/
def segment : Pc → BkProg Pc
  | .loop => threadLoop
  | .ops => tokenOpHanler
  | .proc => processTokenReq
  | .reg => registerNext
  | .fin => do
    Prog.modify finishOp
    pure .ops
  | .msg => threadMsg
  | .leave => do
    deregisterCurCmdReq true
    pure .leaveMsgs
  | .leaveMsgs => clearWaitingMsg
  | .leaveWait => clearWaitQ
  | .leaveReqs => clearWatingReq
  | .leaveWaitReqs => clearReqWaitQ
  | .stopped => pure .stopped

/-- A dispatcher and its thread. -/
abbrev DisprState : Type := CoState CmdDispatcher BkCall MdlRet Pc

/-- What happens to a dispatcher: a call of the API, the next segment of the thread, or the return
of a callback. -/
abbrev DisprEvent : Type := CoEvent Api MdlRet

/-- One step of the dispatcher. -/
def disprStep : DisprState → DisprEvent → Option DisprState := coStep segment CmdDispatcher.api

/-- The dispatcher after `dispr_start`. -/
def disprInit (modules : Modules) (ctrlPresent : Bool) : DisprState :=
  ⟨disprStart modules ctrlPresent, .before .loop⟩

end Rtl88x2cu.Dispatcher
