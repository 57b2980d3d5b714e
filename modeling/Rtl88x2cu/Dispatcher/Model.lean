import Rtl88x2cu.Dispatcher.MsgPool

/-!
# Command dispatcher: requests, token operations and the API

The state of a command dispatcher (`struct cmd_dispatcher`) and the functions of
`phl/phl_cmd_dispatcher.c` that other threads and the callbacks call: sending and cancelling
messages, adding and cancelling token requests, freeing the token, and stopping. Each call is one
step.

The background modules are those registered while the dispatcher runs, so `bitmap`, `basemap` and
`module_q` do not change. Pointers passed by callers are not null, except the attribute of a
message, and the list of modules in it.

As in the message pool, the fields after the driver's own are bookkeeping: `hand` is the request
the thread has taken out of a queue and not put anywhere yet, `gen` counts the requests a slot has
been given to, and `accepted` and `handled` record the token operations.
-/

namespace Rtl88x2cu.Dispatcher

/-! ## Requests -/

/-- An index into `token_req_ex_pool`, which has `MAX_CMD_REQ_NUM` entries. -/
abbrev ReqSlot : Type := Fin 8

/-- `enum cmd_req_status`. -/
structure ReqStatus where
  enq : Bool := false
  run : Bool := false
  cancel : Bool := false
  lastPermit : Bool := false
  prepare : Bool := false
  deriving DecidableEq, Repr

/-- `struct phl_cmd_token_req_ex`, less its two op nodes. -/
structure ReqEx where
  status : ReqStatus := {}
  moduleId : ℕ := 0
  deriving DecidableEq, Repr

/-- `token_req_ex_pool`, its queues and the token. -/
structure ReqPool where
  pool : ReqSlot → ReqEx
  idleQ : PhlQueue ReqSlot
  waitQ : PhlQueue ReqSlot
  cur : Option ReqSlot
  tokenCnt : ℤ
  hand : Option ReqSlot
  gen : ReqSlot → ℕ

/-- `init_cmd_req_pool`, less `token_op_q`. -/
def initCmdReqPool : ReqPool where
  pool _ := {}
  idleQ := (List.finRange 8).foldl pqPush pqInit
  waitQ := pqInit
  cur := none
  tokenCnt := 0
  hand := none
  gen _ := 0

namespace ReqPool

/-- Change the status of a request. -/
def editStatus (p : ReqPool) (i : ReqSlot) (f : ReqStatus → ReqStatus) : ReqPool :=
  { p with pool := Function.update p.pool i { p.pool i with status := f (p.pool i).status } }

/-- `pop_front_wait_req`, by the dispatcher thread. -/
def popFrontWaitReq (p : ReqPool) : Option (ReqSlot × ReqPool) :=
  (pqPop p.waitQ).map fun x =>
    (x.1, { p with waitQ := x.2, hand := some x.1 }.editStatus x.1 fun st =>
      { st with prepare := true, enq := false })

/-- `cancel_all_cmd_req`. -/
def cancelAllCmdReq (p : ReqPool) : ReqPool :=
  { p with pool := fun i =>
      if (p.pool i).status = {} then p.pool i
      else { p.pool i with status := { (p.pool i).status with cancel := true } } }

end ReqPool

/-! ## Token operations -/

/-- `enum token_op_type`. -/
inductive OpType where
  | addCmdReq
  | freeCmdReq
  | cancelCmdReq
  | renewCmdReq
  deriving DecidableEq, Repr

/-- `struct phl_token_op_info`, less its list node; no type is the value 0. -/
structure OpInfo where
  used : Bool := false
  type : Option OpType := none
  data : ℕ := 0
  deriving DecidableEq, Repr

/-- The op nodes: two in each request slot, and `renew_req_info`. -/
inductive OpNode where
  | addReq (i : ReqSlot)
  | freeReq (i : ReqSlot)
  | renew
  deriving DecidableEq, Repr

/-- A token operation: its node, type and data, and the request it is for, as the number of
requests the slot in its data has been given to. -/
structure OpRecord where
  node : OpNode
  type : Option OpType
  data : ℕ
  gen : Option ℕ
  deriving DecidableEq, Repr

/-- `token_op_q` and the op nodes. -/
structure OpQueue where
  q : PhlQueue OpNode
  info : OpNode → OpInfo
  handling : Option OpNode
  accepted : List OpRecord
  handled : List OpRecord

/-- The op queue of a dispatcher that has just been started. -/
def initOpQueue : OpQueue where
  q := pqInit
  info _ := {}
  handling := none
  accepted := []
  handled := []

/-! ## The dispatcher -/

/-- `enum dispatcher_status`, less the flags that are set for the whole life of the queues;
`threadStop` is set when the thread has been told to stop. -/
structure DisprStatus where
  started : Bool := true
  notifyIdle : Bool := true
  clrPendMsg : Bool := false
  ctrlPresent : Bool := true
  waitAbortMsgDone : Bool := false
  cannotIo : Bool := false
  threadStop : Bool := false
  deriving DecidableEq, Repr

/-- `struct cmd_dispatcher`. -/
structure CmdDispatcher where
  status : DisprStatus
  exclusiveMdl : ℕ
  modules : Modules
  msgs : MsgPool
  reqs : ReqPool
  ops : OpQueue

/-- A dispatcher after `dispr_start`; the controller may have failed to start. -/
def disprStart (modules : Modules) (ctrlPresent : Bool) : CmdDispatcher where
  status := { ctrlPresent := ctrlPresent }
  exclusiveMdl := phlMdlIdMax
  modules := modules
  msgs := initDisprMsgPool
  reqs := initCmdReqPool
  ops := initOpQueue

/-- `enum rtw_phl_status`, as far as the dispatcher uses it. -/
inductive RtwPhlStatus where
  | success
  | failure
  | resource
  | invalidParam
  | unexpectedError
  | pending
  deriving DecidableEq, Repr

/-! ## Handles -/

/-- `GEN_VALID_HDL`. -/
def genValidHdl (idx : ℕ) : BitVec 32 := 0x80000000#32 ||| BitVec.ofNat 32 idx

/-- `IS_HDL_VALID`. -/
def isHdlValid (hdl : BitVec 32) : Bool := decide (hdl &&& 0x80000000#32 ≠ 0)

/-- `GET_IDX_FROM_HDL`. -/
def getIdxFromHdl (hdl : BitVec 32) : ℕ := (hdl &&& 0xFF#32).toNat

namespace CmdDispatcher

/-- Change the message pool. -/
def onMsgs (w : CmdDispatcher) (f : MsgPool → MsgPool) : CmdDispatcher :=
  { w with msgs := f w.msgs }

/-- Change the request pool. -/
def onReqs (w : CmdDispatcher) (f : ReqPool → ReqPool) : CmdDispatcher :=
  { w with reqs := f w.reqs }

/-- Change the op queue. -/
def onOps (w : CmdDispatcher) (f : OpQueue → OpQueue) : CmdDispatcher :=
  { w with ops := f w.ops }

/-- Change the status of the dispatcher. -/
def onStatus (w : CmdDispatcher) (f : DisprStatus → DisprStatus) : CmdDispatcher :=
  { w with status := f w.status }

/-! ## Token operations -/

/-- The request in the slot with this index. -/
def genAt (w : CmdDispatcher) (data : ℕ) : Option ℕ :=
  if h : data < 8 then some (w.reqs.gen ⟨data, h⟩) else none

/-- The operation of an op node as it is now. -/
def opRecord (w : CmdDispatcher) (n : OpNode) : OpRecord :=
  ⟨n, (w.ops.info n).type, (w.ops.info n).data, w.genAt (w.ops.info n).data⟩

/-- `push_back_token_op_info`. -/
def pushBackTokenOpInfo (w : CmdDispatcher) (n : OpNode) (type : OpType) (data : ℕ) :
    CmdDispatcher × Bool :=
  if (w.ops.info n).used then (w, false)
  else
    (w.onOps fun o => { o with
      info := Function.update o.info n ⟨true, some type, data⟩
      q := pqPush o.q n
      accepted := o.accepted ++ [⟨n, some type, data, w.genAt data⟩] }, true)

/-! ## Sending messages -/

/-- `struct phl_msg_attribute`: the options, `notify` and the completion routine. -/
structure MsgAttr where
  skipNotifyOptMdl : Bool := false
  blistPresent : Bool := false
  clrSndrMsgIfPending : Bool := false
  sendInAbort : Bool := false
  pendingDuringCannotIo : Bool := false
  idArr : Option (List ℕ) := none
  len : ℕ := 0
  completion : Option ℕ := none
  deriving DecidableEq, Repr

/-- The modules named in an attribute. -/
def MsgAttr.ids (attr : MsgAttr) : Finset ℕ := ((attr.idArr.getD []).take attr.len).toFinset

/-- `get_cur_cmd_req_id`. -/
def getCurCmdReqId (w : CmdDispatcher) : ℕ × ReqStatus :=
  match w.reqs.cur with
  | none => (phlMdlIdMax, {})
  | some i =>
    let req := w.reqs.pool i
    (if !req.status.run || req.status.cancel then phlMdlIdMax else req.moduleId, req.status)

/-- The test of `dispr_send_msg` whether the source of the message may send. -/
def mayNotSend (w : CmdDispatcher) (mdlId : ℕ) : Bool :=
  let (curReqId, reqStatus) := w.getCurCmdReqId
  !isDisprCtrl mdlId && decide (mdlId ∉ w.modules.bitmap) &&
    ((decide (curReqId ≠ phlMdlIdMax) && decide (curReqId ≠ mdlId)) ||
      (decide (curReqId = phlMdlIdMax) && decide (reqStatus = {})) ||
      (decide (curReqId = phlMdlIdMax) && !reqStatus.lastPermit))

/-- `set_msg_bitmap` for one of the two bitmaps. -/
def setMsgBitmap (w : CmdDispatcher) (mdlId : ℕ) : Finset ℕ :=
  if mdlId ∈ w.modules.bitmap then insert mdlId w.modules.bitmap else w.modules.bitmap

/-- `set_msg_custom_bitmap` for one of the two bitmaps. -/
def setMsgCustomBitmap (w : CmdDispatcher) (attr : MsgAttr) (mdlId : ℕ) (map : Finset ℕ) :
    Finset ℕ :=
  let map := if attr.skipNotifyOptMdl then w.modules.basemap else map
  let map := if attr.blistPresent then map \ attr.ids else map ∪ attr.ids
  if mdlId ∈ w.modules.bitmap then insert mdlId map else map

/-- `get_module_by_id`, as the id of the module found. -/
def getModuleById (w : CmdDispatcher) (id : ℕ) : Option ℕ :=
  if isDisprCtrl id then
    if w.status.ctrlPresent then some phlMdlPhyMgnt else none
  else if id ∉ w.modules.bitmap then none
  else if [Priority.role, .optional, .mandatory].any fun p =>
      (w.modules.moduleQ p).any fun mdl => decide (mdl.id = id) then some id
  else none

/-- The message as `dispr_send_msg` fills the slot. -/
def newMsg (w : CmdDispatcher) (id : MsgId) (attr : Option MsgAttr) : MsgEx :=
  let (curReqId, _) := w.getCurCmdReqId
  let map := w.setMsgBitmap id.mdlId
  let map := match attr with
    | none => map
    | some attr => w.setMsgCustomBitmap attr id.mdlId map
  let owner := decide (curReqId = id.mdlId)
  let module := if owner then none else w.getModuleById id.mdlId
  { id := id
    premap := map
    postmap := map
    completion := attr.bind MsgAttr.completion
    module := module
    status :=
      { notifyComplete := (attr.bind MsgAttr.completion).isSome
        clrSndrMsgIfPending := attr.any MsgAttr.clrSndrMsgIfPending
        pendingDuringCannotIo := attr.any MsgAttr.pendingDuringCannotIo
        ownerReq := owner
        ownerBkMdl := module.isSome } }

/-- The request in whose abort its owner sends a message with this module id. -/
def abortingOwner (w : CmdDispatcher) (mdlId : ℕ) : Option (ℕ × ℕ) :=
  w.reqs.cur.bind fun i =>
    if (w.reqs.pool i).status.lastPermit ∧ (w.reqs.pool i).moduleId = mdlId then
      some (i.val, w.reqs.gen i)
    else none

/-- The path of `dispr_send_msg` for a message of a request that is about to unload, sent without
`MSG_OPT_SEND_IN_ABORT`: the slot is given back by `push_back_idle_msg`. -/
def refuseMsg (w : CmdDispatcher) (p : MsgPool) (i : MsgSlot) (m : MsgEx) : CmdDispatcher :=
  let p := { p with clock := p.clock + 1 }.record (.refused p.clock)
  let p := if m.status.notifyComplete && m.completion.isSome then p.record (.fired w.msgs.clock)
    else p
  { w with msgs := (p.set i { m with id := { m.id with indcFail := true } }).putIdle i }

/-- The path of `dispr_send_msg` that queues the message. -/
def queueMsg (w : CmdDispatcher) (p : MsgPool) (i : MsgSlot) (m : MsgEx) (forAbort : Bool) :
    CmdDispatcher :=
  let m := { m with status := { m.status with forAbort := forAbort, prePhase := true } }
  let p := { p.set i m with
    stamp := Function.update p.stamp i p.clock
    clock := p.clock + 1
    everPended := Function.update p.everPended i false
    inAbort := Function.update p.inAbort i (w.abortingOwner m.id.mdlId) }
  let p := p.record (.accepted w.msgs.clock i m.completion.isSome)
  { w with
    status := { w.status with waitAbortMsgDone := w.status.waitAbortMsgDone || forAbort }
    msgs := if isDisprCtrl m.id.mdlId then p.insertMsgByPriority i else p.pushBackWaitMsg i }

/-- `dispr_send_msg`; the handle is given if the message is accepted. -/
def disprSendMsg (w : CmdDispatcher) (id : MsgId) (attr : Option MsgAttr) :
    CmdDispatcher × RtwPhlStatus × Option (BitVec 32) :=
  let (_, reqStatus) := w.getCurCmdReqId
  if !w.status.started then (w, .unexpectedError, none)
  else if attr.any fun a => a.idArr.isNone && decide (a.len ≠ 0) then (w, .invalidParam, none)
  else if w.mayNotSend id.mdlId then (w, .invalidParam, none)
  else
    match w.msgs.popFrontIdleMsg with
    | none => (w, .resource, none)
    | some (i, p) =>
      let m := w.newMsg id attr
      let lastPermit := m.status.ownerReq && reqStatus.lastPermit
      if lastPermit && !attr.any MsgAttr.sendInAbort then
        (w.refuseMsg p i m, .failure, none)
      else
        (w.queueMsg p i m lastPermit, .success, some (genValidHdl i))

/-- `dispr_cancel_msg`. -/
def disprCancelMsg (w : CmdDispatcher) (hdl : BitVec 32) : CmdDispatcher × RtwPhlStatus :=
  if !w.status.started then (w, .unexpectedError)
  else if !isHdlValid hdl then (w, .failure)
  else if h : getIdxFromHdl hdl < 24 then
    let i : MsgSlot := ⟨getIdxFromHdl hdl, h⟩
    let st := (w.msgs.pool i).status
    if !st.enq && !st.run then (w, .failure)
    else (w.onMsgs fun p => p.cancelMsg i, .success)
  else (w, .failure)

/-- `dispr_clr_pending_msg`. -/
def disprClrPendingMsg (w : CmdDispatcher) : CmdDispatcher :=
  w.onStatus fun st => { st with clrPendMsg := true }

/-! ## Token requests -/

/-- `struct phl_cmd_token_req`, with one bit for its operations being all given. -/
structure TokenReq where
  moduleId : ℕ
  hasOps : Bool := true
  deriving DecidableEq, Repr

/-- `chk_cmd_req_ops`. -/
def chkCmdReqOps (req : TokenReq) : Bool := decide (phlFgMdlStart ≤ req.moduleId) && req.hasOps

/-- `pop_front_idle_req`: the request and its op nodes are cleared. -/
def popFrontIdleReq (w : CmdDispatcher) : Option (ReqSlot × CmdDispatcher) :=
  (pqPop w.reqs.idleQ).map fun x =>
    (x.1, { w with
      reqs := { w.reqs with
        idleQ := x.2
        pool := Function.update w.reqs.pool x.1 {}
        gen := Function.update w.reqs.gen x.1 (w.reqs.gen x.1 + 1) }
      ops := { w.ops with
        info := Function.update (Function.update w.ops.info (.addReq x.1) {}) (.freeReq x.1) {} } })

/-- `push_back_wait_req` with a request that was just taken from the idle queue. -/
def pushBackWaitReq (p : ReqPool) (i : ReqSlot) (req : TokenReq) : ReqPool :=
  { p with
    pool := Function.update p.pool i { status := { enq := true }, moduleId := req.moduleId }
    waitQ := pqPush p.waitQ i }

/-- `dispr_add_token_req`. -/
def disprAddTokenReq (w : CmdDispatcher) (req : TokenReq) :
    CmdDispatcher × RtwPhlStatus × Option (BitVec 32) :=
  if !w.status.started || !chkCmdReqOps req then (w, .unexpectedError, none)
  else
    match w.popFrontIdleReq with
    | none => (w, .resource, none)
    | some (i, w') =>
      let w' := w'.onReqs fun p => pushBackWaitReq p i req
      let stat := if (pqGetFront w'.ops.q).isNone ∧ w'.reqs.tokenCnt = 0 then .success
        else .pending
      ((w'.pushBackTokenOpInfo (.addReq i) .addCmdReq i).1, stat, some (genValidHdl i))

/-- The end of `dispr_cancel_token_req` and `dispr_free_token`: the request is marked and its op
node queued. -/
def enqueueFree (w : CmdDispatcher) (i : ReqSlot) (type : OpType) :
    CmdDispatcher × RtwPhlStatus :=
  let w := w.onReqs fun p => p.editStatus i fun st => { st with cancel := true }
  let r := w.pushBackTokenOpInfo (.freeReq i) type i
  (r.1, if r.2 then .success else .failure)

/-- `dispr_cancel_token_req`. -/
def disprCancelTokenReq (w : CmdDispatcher) (hdl : BitVec 32) : CmdDispatcher × RtwPhlStatus :=
  if !w.status.started then (w, .unexpectedError)
  else if !isHdlValid hdl then (w, .failure)
  else if h : getIdxFromHdl hdl < 8 then
    let i : ReqSlot := ⟨getIdxFromHdl hdl, h⟩
    let st := (w.reqs.pool i).status
    if !st.enq && !st.run && !st.prepare then (w, .failure)
    else w.enqueueFree i .cancelCmdReq
  else (w, .failure)

/-- `dispr_free_token`. -/
def disprFreeToken (w : CmdDispatcher) (hdl : BitVec 32) : CmdDispatcher × RtwPhlStatus :=
  if !w.status.started then (w, .unexpectedError)
  else if w.reqs.cur.isNone || decide (w.reqs.tokenCnt = 0) || !isHdlValid hdl then (w, .failure)
  else if h : getIdxFromHdl hdl < 8 then
    let i : ReqSlot := ⟨getIdxFromHdl hdl, h⟩
    let st := (w.reqs.pool i).status
    if !st.run && !st.prepare then (w, .failure)
    else w.enqueueFree i .freeCmdReq
  else (w, .failure)

/-! ## Device I/O and stop -/

/-- `MSG_EVT_DEV_CANNOT_IO`. -/
def msgEvtDevCannotIo : ℕ := 56

/-- `MSG_EVT_DEV_RESUME_IO`. -/
def msgEvtDevResumeIo : ℕ := 57

/-- `send_dev_io_status_change`. -/
def sendDevIoStatusChange (w : CmdDispatcher) (allowIo : Bool) : CmdDispatcher :=
  (w.disprSendMsg { mdlId := phlMdlPhyMgnt,
                    evtId := if allowIo then msgEvtDevResumeIo else msgEvtDevCannotIo }
    (some {})).1

/-- `dispr_notify_dev_io_status`. -/
def disprNotifyDevIoStatus (w : CmdDispatcher) (mdlId : ℕ) (allowIo : Bool) : CmdDispatcher :=
  if !allowIo then
    if w.status.cannotIo then w
    else
      sendDevIoStatusChange
        { w with status := { w.status with cannotIo := true }, exclusiveMdl := mdlId } allowIo
  else if w.status.cannotIo then
    (sendDevIoStatusChange
      { w with status := { w.status with cannotIo := false }, exclusiveMdl := phlMdlIdMax }
      allowIo).disprClrPendingMsg
  else w

/-- `cancel_running_msg`. -/
def cancelRunningMsg (p : MsgPool) : MsgPool :=
  (List.finRange 24).foldl
    (fun p i => if (p.pool i).status.run then p.cancelMsg i else p) p

/-- `dispr_thread_stop_prior_hdl`. -/
def disprThreadStopPriorHdl (w : CmdDispatcher) : CmdDispatcher :=
  { w with
    status := { w.status with started := false, ctrlPresent := false }
    reqs := w.reqs.cancelAllCmdReq
    msgs := cancelRunningMsg w.msgs }

/-- `_os_thread_stop`, which `dispr_stop` calls after `dispr_thread_stop_prior_hdl`. -/
def osThreadStop (w : CmdDispatcher) : CmdDispatcher :=
  w.onStatus fun st => { st with threadStop := st.threadStop || !st.started }

end CmdDispatcher

open CmdDispatcher

/-- The calls of other threads, and of callbacks, into the dispatcher. -/
inductive Api where
  | sendMsg (id : MsgId) (attr : Option MsgAttr)
  | cancelMsg (hdl : BitVec 32)
  | clrPendingMsg
  | addTokenReq (req : TokenReq)
  | cancelTokenReq (hdl : BitVec 32)
  | freeToken (hdl : BitVec 32)
  | notifyDevIoStatus (mdlId : ℕ) (allowIo : Bool)
  | stopPrior
  | stopThread
  deriving DecidableEq

/-- The effect of a call on the dispatcher. -/
def CmdDispatcher.api (w : CmdDispatcher) : Api → CmdDispatcher
  | .sendMsg id attr => (w.disprSendMsg id attr).1
  | .cancelMsg hdl => (w.disprCancelMsg hdl).1
  | .clrPendingMsg => w.disprClrPendingMsg
  | .addTokenReq req => (w.disprAddTokenReq req).1
  | .cancelTokenReq hdl => (w.disprCancelTokenReq hdl).1
  | .freeToken hdl => (w.disprFreeToken hdl).1
  | .notifyDevIoStatus mdlId allowIo => w.disprNotifyDevIoStatus mdlId allowIo
  | .stopPrior => w.disprThreadStopPriorHdl
  | .stopThread => w.osThreadStop

end Rtl88x2cu.Dispatcher
