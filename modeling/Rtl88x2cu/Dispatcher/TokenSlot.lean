import Rtl88x2cu.Dispatcher.Handles
import Rtl88x2cu.Dispatcher.Thread

/-!
# Command dispatcher: the token as one request sees it

A request sees of the dispatcher its own status, whether it is the current request, its op node and
whether the dispatcher is started. `tokenSlot` is this part of a dispatcher. The operations on the
token act on it by themselves, so that a model of one request can do without the rest.
-/

namespace Rtl88x2cu.Dispatcher

open CmdDispatcher

/-- What a request in a slot sees of the dispatcher. -/
structure TokenSlot where
  idx : ReqSlot
  status : ReqStatus
  cur : Bool
  freeReqInfo : OpInfo
  started : Bool
  deriving DecidableEq, Repr

/-- The part of the dispatcher that the request in the slot `i` sees. -/
def CmdDispatcher.tokenSlot (w : CmdDispatcher) (i : ReqSlot) : TokenSlot where
  idx := i
  status := (w.reqs.pool i).status
  cur := decide (w.reqs.cur = some i)
  freeReqInfo := w.ops.info (.freeReq i)
  started := w.status.started

namespace TokenSlot

/-- The end of `dispr_cancel_token_req` and `dispr_free_token`. -/
def enqueueFree (t : TokenSlot) (type : OpType) : TokenSlot × RtwPhlStatus :=
  let t := { t with status := { t.status with cancel := true } }
  if t.freeReqInfo.used then (t, .failure)
  else ({ t with freeReqInfo := ⟨true, some type, t.idx⟩ }, .success)

/-- `dispr_cancel_token_req`. -/
def cancelTokenReq (t : TokenSlot) : TokenSlot × RtwPhlStatus :=
  if !t.started then (t, .unexpectedError)
  else if !t.status.enq && !t.status.run && !t.status.prepare then (t, .failure)
  else t.enqueueFree .cancelCmdReq

/-- `dispr_free_token`, called by the current request. -/
def freeToken (t : TokenSlot) : TokenSlot × RtwPhlStatus :=
  if !t.started then (t, .unexpectedError)
  else if !t.status.run && !t.status.prepare then (t, .failure)
  else t.enqueueFree .freeCmdReq

/-- `register_cur_cmd_req` up to the call of `acquired`, with the `pop_front_wait_req` before it. -/
def take (t : TokenSlot) : TokenSlot :=
  { t with status := { t.status with enq := false, run := true, prepare := false }, cur := true }

/-- The start of `deregister_cur_cmd_req`. -/
def unload (t : TokenSlot) : TokenSlot := { t with status := { t.status with run := false } }

/-- `REQ_STATUS_LAST_PERMIT`. -/
def setLastPermit (b : Bool) (t : TokenSlot) : TokenSlot :=
  { t with status := { t.status with lastPermit := b } }

/-- `push_back_idle_req`, and the end of `deregister_cur_cmd_req`. -/
def release (t : TokenSlot) : TokenSlot := { t with status := {}, cur := false }

/-- `info->used = false` in `token_op_hanler`. -/
def finishOp (t : TokenSlot) : TokenSlot :=
  { t with freeReqInfo := { t.freeReqInfo with used := false } }

/-- `dispr_thread_stop_prior_hdl`. -/
def stopPrior (t : TokenSlot) : TokenSlot :=
  { t with
    started := false
    status := if t.status = {} then t.status else { t.status with cancel := true } }

/-- The request is the current one, and `get_cur_cmd_req_id` gives its module id. -/
def active (t : TokenSlot) : Bool := t.cur && t.status.run && !t.status.cancel

/-- The request may send messages. -/
def maySend (t : TokenSlot) : Bool := t.active || (t.cur && t.status.lastPermit)

end TokenSlot

/-! ## The operations of the dispatcher on the slot -/

section

variable (w : CmdDispatcher) (i : ReqSlot)

theorem tokenSlot_enqueueFree (type : OpType) :
    (w.enqueueFree i type).1.tokenSlot i = ((w.tokenSlot i).enqueueFree type).1 ∧
      (w.enqueueFree i type).2 = ((w.tokenSlot i).enqueueFree type).2 := by
  rcases enqueueFree_cases w i type with ⟨hused, h⟩ | ⟨hused, h⟩ <;>
    simp [h, TokenSlot.enqueueFree, tokenSlot, hused, onReqs, ReqPool.editStatus]

/-- `dispr_cancel_token_req` with the handle of the request. -/
theorem tokenSlot_disprCancelTokenReq :
    (w.disprCancelTokenReq (genValidHdl i)).1.tokenSlot i =
        ((w.tokenSlot i).cancelTokenReq).1 ∧
      (w.disprCancelTokenReq (genValidHdl i)).2 = ((w.tokenSlot i).cancelTokenReq).2 := by
  obtain ⟨hvalid, hidx⟩ := reqHdl_valid i
  have hs : (w.tokenSlot i).started = w.status.started := rfl
  have hst : (w.tokenSlot i).status = (w.reqs.pool i).status := rfl
  simp only [disprCancelTokenReq, TokenSlot.cancelTokenReq, hvalid, hidx, i.isLt, hs, hst,
    Bool.not_true, Bool.false_eq_true, if_false, dif_pos, Fin.eta]
  split
  · exact ⟨rfl, rfl⟩
  · split
    · exact ⟨rfl, rfl⟩
    · exact tokenSlot_enqueueFree w i .cancelCmdReq

/-- `dispr_free_token` with the handle of the request, while it is the current one. -/
theorem tokenSlot_disprFreeToken (h : w.reqs.Inv) (hcur : w.reqs.cur = some i) :
    (w.disprFreeToken (genValidHdl i)).1.tokenSlot i = ((w.tokenSlot i).freeToken).1 ∧
      (w.disprFreeToken (genValidHdl i)).2 = ((w.tokenSlot i).freeToken).2 := by
  obtain ⟨hvalid, hidx⟩ := reqHdl_valid i
  have hs : (w.tokenSlot i).started = w.status.started := rfl
  have hst : (w.tokenSlot i).status = (w.reqs.pool i).status := rfl
  have htoken : w.reqs.tokenCnt = 1 := by rw [h.token, hcur]; rfl
  simp only [disprFreeToken, TokenSlot.freeToken, hvalid, hidx, i.isLt, hs, hst, hcur, htoken,
    Option.isNone_some, one_ne_zero, decide_false, Bool.or_self, Bool.not_true,
    Bool.false_eq_true, if_false, dif_pos, Fin.eta]
  split
  · exact ⟨rfl, rfl⟩
  · split
    · exact ⟨rfl, rfl⟩
    · exact tokenSlot_enqueueFree w i .freeCmdReq

theorem tokenSlot_stopPrior :
    w.disprThreadStopPriorHdl.tokenSlot i = (w.tokenSlot i).stopPrior := by
  simp only [tokenSlot, disprThreadStopPriorHdl, TokenSlot.stopPrior, ReqPool.cancelAllCmdReq]
  by_cases hst : (w.reqs.pool i).status = {} <;> simp [hst]

theorem tokenSlot_setLastPermit (b : Bool) :
    (setLastPermit b i w).tokenSlot i = (w.tokenSlot i).setLastPermit b := by
  simp only [tokenSlot, setLastPermit, TokenSlot.setLastPermit, onReqs, ReqPool.editStatus,
    Function.update_self]
  rfl

/-- The end of `deregister_cur_cmd_req` for the current request. -/
theorem tokenSlot_releaseToken : (releaseToken w i).tokenSlot i = (w.tokenSlot i).release := by
  simp [tokenSlot, releaseToken, pushBackIdleReq, TokenSlot.release, onReqs, ReqPool.editStatus]

/-- A waiting request goes back to the idle queue. -/
theorem tokenSlot_putReqBack (hcur : w.reqs.cur ≠ some i) :
    (putReqBack w i).tokenSlot i = (w.tokenSlot i).release := by
  simp [tokenSlot, putReqBack, pushBackIdleReq, TokenSlot.release, onReqs, ReqPool.editStatus,
    hcur]

/-- The request that `get_cur_cmd_req_id` names may send, as may one that is about to unload. -/
theorem mayNotSend_tokenSlot (hcur : w.reqs.cur = some i)
    (hid : (w.reqs.pool i).moduleId ≠ phlMdlIdMax)
    (hctrl : isDisprCtrl (w.reqs.pool i).moduleId = false)
    (hmap : (w.reqs.pool i).moduleId ∉ w.modules.bitmap) :
    w.mayNotSend (w.reqs.pool i).moduleId = !(w.tokenSlot i).maySend := by
  simp only [mayNotSend, getCurCmdReqId, hcur, hctrl, hmap, TokenSlot.maySend, TokenSlot.active,
    tokenSlot, decide_true, not_false_eq_true, Bool.not_false, Bool.true_and]
  have hst : (w.reqs.pool i).status.lastPermit = true → (w.reqs.pool i).status ≠ {} :=
    fun hlast h => by simp [h] at hlast
  cases hrun : (w.reqs.pool i).status.run <;> cases hcancel : (w.reqs.pool i).status.cancel <;>
    cases hlast : (w.reqs.pool i).status.lastPermit <;> simp [hid, hst, hlast]

end

end Rtl88x2cu.Dispatcher
