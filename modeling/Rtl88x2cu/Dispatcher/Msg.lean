import Mathlib.Algebra.Order.Ring.Nat
import Mathlib.Data.Finset.Basic
import Rtl88x2cu.Lib.Coroutine

/-!
# Command dispatcher: one message and its dispatch

Shallow embedding of the part of `phl/phl_cmd_dispatcher.c` that handles one message:
`feed_mdl_msg`, `notify_msg_fail`, `msg_pre_phase_hdl`, `msg_post_phase_hdl` and `msg_dispatch`,
in the configuration without `CONFIG_CMD_DISP_SOLO_MODE` and
`CONFIG_CMD_DISP_SUPPORT_CUSTOM_SEQ`.

The functions are programs that work on the message and call the message handlers of modules and
of the current command request. Status words are records of flags, and bitmaps of modules are
finite sets of module ids. The background modules are those registered while the dispatcher runs.
-/

namespace Rtl88x2cu.Dispatcher

/-! ## Module ids and return codes -/

/-- `IS_DISPR_CTRL`: ids below `PHL_BK_MDL_ROLE_START` belong to the dispatcher controller. -/
def isDisprCtrl (id : ℕ) : Bool := decide (id < 10)

/-- `PHL_MDL_PHY_MGNT`, the id of the controller. -/
def phlMdlPhyMgnt : ℕ := 1

/-- `PHL_MDL_POWER_MGNT`. -/
def phlMdlPowerMgnt : ℕ := 41

/-- `PHL_FG_MDL_START`. -/
def phlFgMdlStart : ℕ := 129

/-- `PHL_MDL_ID_MAX`. -/
def phlMdlIdMax : ℕ := 255

/-- `enum phl_bk_module_priority`, less `PHL_MDL_PRI_MAX`. -/
inductive Priority where
  | role
  | optional
  | mandatory
  deriving DecidableEq, Repr

/-- `_get_mdl_priority`; `none` is `PHL_MDL_PRI_MAX`. -/
def getMdlPriority (id : ℕ) : Option Priority :=
  if id < 10 then none
  else if id ≤ 40 then some .role
  else if id ≤ 70 then some .mandatory
  else if id ≤ 127 then some .optional
  else none

/-- `enum phl_mdl_ret_code`. -/
inductive MdlRet where
  | success
  | fail
  | ignore
  | pending
  | cannotIo
  deriving DecidableEq, Repr

/-- `STOP_DISPATCH_MSG`. -/
def MdlRet.stopDispatch : MdlRet → Bool
  | .success => false
  | .ignore => false
  | _ => true

/-! ## Messages -/

/-- `enum phl_msg_status`. -/
structure MsgStatus where
  enq : Bool := false
  run : Bool := false
  notifyComplete : Bool := false
  cancel : Bool := false
  prePhase : Bool := false
  fail : Bool := false
  ownerBkMdl : Bool := false
  ownerReq : Bool := false
  clrSndrMsgIfPending : Bool := false
  pending : Bool := false
  forAbort : Bool := false
  pendingDuringCannotIo : Bool := false
  deriving DecidableEq, Repr

/-- `phl_msg.msg_id`: module id, event id and the indicator byte. -/
structure MsgId where
  mdlId : ℕ := 0
  evtId : ℕ := 0
  indcPrePhase : Bool := false
  indcFail : Bool := false
  indcCancel : Bool := false
  indcCannotIo : Bool := false
  deriving DecidableEq, Repr

/-- `struct phl_dispr_msg_ex`. The completion routine is the one the sender gave, if any, and
`module` the id of the module behind the handle of the message source. -/
structure MsgEx where
  status : MsgStatus := {}
  id : MsgId := {}
  premap : Finset ℕ := ∅
  postmap : Finset ℕ := ∅
  completion : Option ℕ := none
  module : Option ℕ := none
  deriving DecidableEq

/-- `struct phl_bk_module`, as far as the dispatch reads it. -/
structure BkModule where
  id : ℕ
  started : Bool
  deriving DecidableEq, Repr

/-- The background modules of a dispatcher: `bitmap`, `basemap` and `module_q`. -/
structure Modules where
  bitmap : Finset ℕ
  basemap : Finset ℕ
  moduleQ : Priority → List BkModule

/-- What the dispatch of a message sees: the message, the modules, whether the controller is
present, and whether there is a current request that runs and is not cancelled. -/
structure View where
  msg : MsgEx
  modules : Modules
  ctrlPresent : Bool
  reqActive : Bool

/-- The callbacks of a dispatch. -/
inductive MsgCall where
  /-- `mdl->ops.msg_hdlr` of a module in `feed_mdl_msg`. -/
  | feed (mdl : ℕ) (id : MsgId)
  /-- `ex->module->ops.msg_hdlr` of the message source in `notify_msg_fail`. -/
  | notifyFail (mdl : ℕ) (id : MsgId)
  /-- `cur_req->req.msg_hdlr`. -/
  | curReq (id : MsgId)
  deriving DecidableEq, Repr

/-- Programs of the dispatch of one message. -/
abbrev MsgProg (α : Type) : Type := Prog View MsgCall MdlRet α

/-- Change the message. -/
def editMsg (f : MsgEx → MsgEx) : MsgProg Unit := Prog.modify fun v => { v with msg := f v.msg }

/-- Change the status of the message. -/
def editStatus (f : MsgStatus → MsgStatus) : MsgProg Unit :=
  editMsg fun m => { m with status := f m.status }

/-! ## Feeding modules -/

/-- `cur_req_hdl`. -/
def curReqHdl : MsgProg Unit := do
  let v ← Prog.get
  if v.reqActive && !v.msg.status.forAbort then
    let _ ← Prog.call (.curReq v.msg.id)
    pure ()
  else
    pure ()

/-- Mark the message as failed, in its status and in its indicator. -/
def MsgEx.markFail (m : MsgEx) (ret : MdlRet) : MsgEx :=
  { m with
    status := { m.status with fail := true }
    id := { m.id with
      indcFail := true
      indcCannotIo := m.id.indcCannotIo || decide (ret = .cannotIo) } }

/-- Tell the source of a failed message, if it is a background module. -/
def notifySource : MsgProg Unit := do
  let v ← Prog.get
  match v.msg.module with
  | some mdl =>
    if v.msg.status.ownerBkMdl &&
        (isDisprCtrl v.msg.id.mdlId || decide (mdl ∈ v.modules.bitmap)) then
      let _ ← Prog.call (.notifyFail mdl v.msg.id)
      pure ()
    else
      pure ()
  | none => pure ()

/-- `notify_msg_fail`. -/
def notifyMsgFail (ret : MdlRet) : MsgProg Unit := do
  editMsg fun m => m.markFail ret
  notifySource
  let v ← Prog.get
  if v.msg.status.ownerReq then curReqHdl else pure ()

/-- Clear the bit of a module in the bitmap of the current phase. -/
def clrBitmapBit (m : MsgEx) (mdl : ℕ) : MsgEx :=
  if m.id.indcPrePhase then { m with premap := m.premap.erase mdl }
  else { m with postmap := m.postmap.erase mdl }

/-- What `feed_mdl_msg` does with the answer of the module. -/
def handleRet (mdl : ℕ) (ret : MdlRet) : MsgProg Unit :=
  match ret with
  | .fail => notifyMsgFail ret
  | .cannotIo => notifyMsgFail ret
  | .pending => editStatus fun st => { st with pending := true }
  | _ => editMsg fun m => clrBitmapBit m mdl

/-- `feed_mdl_msg`. -/
def feedMdlMsg (mdl : ℕ) : MsgProg MdlRet := do
  let v ← Prog.get
  let ret ← Prog.call (.feed mdl v.msg.id)
  handleRet mdl ret
  pure ret

/-- `_notify_dispr_controller`. -/
def notifyDisprController : MsgProg Unit := do
  let v ← Prog.get
  if v.ctrlPresent then
    let _ ← feedMdlMsg phlMdlPhyMgnt
    pure ()
  else
    pure ()

/-! ## The two phases -/

/-- The bitmap of a phase. -/
def MsgEx.phaseMap (m : MsgEx) (pre : Bool) : Finset ℕ := if pre then m.premap else m.postmap

/-- Feed the started modules of a queue whose bit is set, in order; `true` if the dispatch has to
stop. -/
def feedQueue (pre : Bool) : List BkModule → MsgProg Bool
  | [] => pure false
  | mdl :: l => do
    let v ← Prog.get
    if decide (mdl.id ∈ v.msg.phaseMap pre) && mdl.started then
      let ret ← feedMdlMsg mdl.id
      if ret.stopDispatch then pure true else feedQueue pre l
    else
      feedQueue pre l

/-- `owner_id` with its priority, if the message has a source module in a module queue. -/
def MsgEx.owner (m : MsgEx) : Option (ℕ × Priority) :=
  m.module.bind fun id => (getMdlPriority id).map fun p => (id, p)

/-- The source of the message is fed before the other modules of its priority. -/
def feedOwner (pre : Bool) (p : Priority) : MsgProg Bool := do
  let v ← Prog.get
  match v.msg.owner with
  | some (owner, ownerPri) =>
    if ownerPri = p ∧ owner ∈ v.msg.phaseMap pre then
      let ret ← feedMdlMsg owner
      pure ret.stopDispatch
    else
      pure false
  | none => pure false

/-- The modules of one priority in the order of the phase: the queue is walked from the front in
the pre-phase and from the tail in the post-phase. -/
def phaseQueue (modules : Modules) (pre : Bool) (p : Priority) : List BkModule :=
  if pre then modules.moduleQ p else (modules.moduleQ p).reverse

/-- The body of the loop of a phase over the priorities. -/
def feedPriority (pre : Bool) (p : Priority) : MsgProg Bool := do
  let stop ← feedOwner pre p
  if stop then pure true
  else
    let v ← Prog.get
    feedQueue pre (phaseQueue v.modules pre p)

/-- The loop of a phase over the priorities. -/
def feedPriorities (pre : Bool) : List Priority → MsgProg Unit
  | [] => pure ()
  | p :: ps => do
    let stop ← feedPriority pre p
    if stop then pure () else feedPriorities pre ps

/-- The priorities in the order of a phase. -/
def phaseOrder (pre : Bool) : List Priority :=
  if pre then [.mandatory, .optional, .role] else [.role, .optional, .mandatory]

/-- `msg_pre_phase_hdl`. -/
def msgPrePhaseHdl : MsgProg Unit := feedPriorities true (phaseOrder true)

/-- `msg_post_phase_hdl`. -/
def msgPostPhaseHdl : MsgProg Unit := feedPriorities false (phaseOrder false)

/-! ## `msg_dispatch` -/

/-- How `msg_dispatch` leaves: to `recycle` or to `reschedule`. -/
inductive Outcome where
  | recycle
  | reschedule
  deriving DecidableEq, Repr

/-- `MSG_REDIRECT_CHK`. -/
def MsgStatus.redirect (st : MsgStatus) : Option Outcome :=
  if st.fail || st.cancel then some .recycle
  else if st.pending then some .reschedule
  else none

/-- Leave if the message has failed, is cancelled or pending, else go on. -/
def redirectChk (next : MsgProg Outcome) : MsgProg Outcome := do
  let v ← Prog.get
  match v.msg.status.redirect with
  | some out => pure out
  | none => next

/-- `get_msg_bitmap`: the phase of the message, with the indicator set to it. -/
def getMsgBitmap : MsgProg Bool := do
  let v ← Prog.get
  editMsg fun m => { m with id := { m.id with indcPrePhase := v.msg.status.prePhase } }
  pure v.msg.status.prePhase

/-- The branch "invalid bitmap state". -/
def invalidBitmap : MsgProg Outcome := do
  editStatus fun st => { st with cancel := true }
  pure .recycle

/-- The post-phase, skipped if its bitmap is empty. -/
def runPostPhase (pre : Bool) : MsgProg Unit := do
  let v ← Prog.get
  if v.msg.phaseMap pre ≠ ∅ then msgPostPhaseHdl else pure ()

/-- The pre-phase, skipped if the message is past it or the bitmap is empty. -/
def runPrePhase (pre : Bool) : MsgProg Unit := do
  let v ← Prog.get
  if v.msg.id.indcPrePhase ∧ v.msg.phaseMap pre ≠ ∅ then msgPrePhaseHdl else pure ()

/-- `msg_dispatch` from the switch to the post-phase on. -/
def dispatchPost : MsgProg Outcome := do
  editStatus fun st => { st with prePhase := false }
  let pre ← getMsgBitmap
  runPostPhase pre
  redirectChk do
    let v ← Prog.get
    if v.msg.phaseMap pre = ∅ then
      curReqHdl
      pure .recycle
    else
      invalidBitmap

/-- `msg_dispatch`, up to the labels `reschedule` and `recycle`. -/
def msgDispatch : MsgProg Outcome := do
  let pre ← getMsgBitmap
  redirectChk do
    notifyDisprController
    redirectChk do
      runPrePhase pre
      redirectChk do
        let v ← Prog.get
        if v.msg.phaseMap pre = ∅ then dispatchPost else invalidBitmap

/-- What `pop_front_wait_msg` does to the message. -/
def MsgEx.popped (m : MsgEx) : MsgEx :=
  { m with status := { m.status with run := true, enq := false, pending := false } }

/-- What a push to the wait or the pending queue does to the message. -/
def MsgEx.queued (m : MsgEx) : MsgEx :=
  { m with status := { m.status with enq := true, run := false } }

/-- Drop the modules that do not exist in the dispatcher, as `dispr_thread_loop_hdl` does before
each dispatch. -/
def MsgEx.andBitmaps (m : MsgEx) (bitmap : Finset ℕ) : MsgEx :=
  { m with premap := m.premap ∩ bitmap, postmap := m.postmap ∩ bitmap }

end Rtl88x2cu.Dispatcher
