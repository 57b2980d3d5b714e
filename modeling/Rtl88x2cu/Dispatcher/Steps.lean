import Mathlib.Algebra.Order.Ring.Nat
import Mathlib.Logic.Relation
import Rtl88x2cu.Dispatcher.ReqPool

/-!
# Command dispatcher: the steps of the thread

`BkStep` lists the single changes the dispatcher thread makes to the state, with what the thread
knows when it makes them. Everything that is proved about whole runs is proved for these steps and
for the calls of the API.

The thread relies on other threads to leave alone what it has in hand: `Rely` says what a call of
the API may change while a callback runs.
-/

namespace Rtl88x2cu.Dispatcher

open CmdDispatcher

/-- A change to a message in dispatch: its identity, its completion routine and its place stay as
they are. -/
structure MsgEx.Benign (m m' : MsgEx) : Prop where
  mdlId : m'.id.mdlId = m.id.mdlId
  evtId : m'.id.evtId = m.id.evtId
  completion : m'.completion = m.completion
  enq : m'.status.enq = m.status.enq
  run : m'.status.run = m.status.run
  notifyComplete : m'.status.notifyComplete = m.status.notifyComplete
  forAbort : m'.status.forAbort = m.status.forAbort

theorem MsgEx.Benign.refl (m : MsgEx) : m.Benign m := ⟨rfl, rfl, rfl, rfl, rfl, rfl, rfl⟩

theorem MsgEx.Benign.trans {m m' m'' : MsgEx} (h : m.Benign m') (h' : m'.Benign m'') :
    m.Benign m'' where
  mdlId := h'.mdlId.trans h.mdlId
  evtId := h'.evtId.trans h.evtId
  completion := h'.completion.trans h.completion
  enq := h'.enq.trans h.enq
  run := h'.run.trans h.run
  notifyComplete := h'.notifyComplete.trans h.notifyComplete
  forAbort := h'.forAbort.trans h.forAbort

/-- A message of the request that is deregistered is cancelled. -/
def MsgPool.disown (p : MsgPool) (i : MsgSlot) : MsgPool :=
  (p.edit i fun m => { m with status := { m.status with ownerReq := false } }).cancelMsg i

/-- The single steps of the dispatcher thread. -/
inductive BkStep (w : CmdDispatcher) : CmdDispatcher → Prop where
  | flags (c n : Bool) :
      BkStep w (w.onStatus fun st => { st with clrPendMsg := c, notifyIdle := n })
  | requeue {i : MsgSlot} {q : PhlQueue MsgSlot} (h : pqPop w.msgs.pendQ = some (i, q)) :
      BkStep w (w.onMsgs fun p => MsgPool.requeuePending { p with pendQ := q } i)
  | unpend {i : MsgSlot} {q : PhlQueue MsgSlot} (h : pqPop w.msgs.pendQ = some (i, q)) :
      BkStep w (w.onMsgs fun p => MsgPool.pushBackWaitMsg { p with pendQ := q } i)
  | takeMsg {i : MsgSlot} {p : MsgPool} (hhand : w.msgs.hand = none)
      (h : w.msgs.popFrontWaitMsg = some (i, p)) : BkStep w { w with msgs := p }
  | editMsg {i : MsgSlot} {m : MsgEx} (hhand : w.msgs.hand = some i)
      (h : (w.msgs.pool i).Benign m) : BkStep w (w.onMsgs fun p => p.set i m)
  | fire {i : MsgSlot} (hhand : w.msgs.hand = some i) (hnot : w.msgs.notified = false)
      (hc : (w.msgs.pool i).completion.isSome = true)
      (hn : (w.msgs.pool i).status.notifyComplete = true) :
      BkStep w (w.onMsgs fun p => p.fireCompletion i)
  | clrNotify {i : MsgSlot} (hhand : w.msgs.hand = some i) (hnot : w.msgs.notified = true) :
      BkStep w (w.onMsgs fun p => p.clrNotify i)
  | recycle {i : MsgSlot} (hhand : w.msgs.hand = some i)
      (h : w.msgs.notified = true ∨ (w.msgs.pool i).completion = none ∨
        (w.msgs.pool i).status.notifyComplete = false) : BkStep w (recycleMsg w i)
  | reschedule {i : MsgSlot} (hhand : w.msgs.hand = some i) (hnot : w.msgs.notified = false) :
      BkStep w (reschedule w i)
  | disown {i : MsgSlot} {j : ReqSlot} (hcur : w.reqs.cur = some j)
      (h : (w.msgs.pool i).id.mdlId = (w.reqs.pool j).moduleId) :
      BkStep w (w.onMsgs fun p => p.disown i)
  | sendPhy (evt : ℕ) :
      BkStep w (w.disprSendMsg { mdlId := phlMdlPowerMgnt, evtId := evt } (some {})).1
  | takeReq {i : ReqSlot} {p : ReqPool} (hhand : w.reqs.hand = none)
      (h : w.reqs.popFrontWaitReq = some (i, p)) : BkStep w { w with reqs := p }
  | takeToken {i : ReqSlot} (hhand : w.reqs.hand = some i)
      (henq : (w.reqs.pool i).status.enq = false) (hcur : w.reqs.cur = none)
      (hwait : w.status.waitAbortMsgDone = false) : BkStep w (takeToken w i)
  | stopRun {i : ReqSlot} (hcur : w.reqs.cur = some i) :
      BkStep w (w.onReqs fun p => p.editStatus i fun st => { st with run := false })
  | lastPermit {i : ReqSlot} (b : Bool) (hcur : w.reqs.cur = some i)
      (hb : b = true → (w.reqs.pool i).status.run = false) : BkStep w (setLastPermit b i w)
  | releaseToken {i : ReqSlot} (hcur : w.reqs.cur = some i) : BkStep w (releaseToken w i)
  | takeWaiting {i : ReqSlot} (hhand : w.reqs.hand = none)
      (henq : (w.reqs.pool i).status.enq = true) : BkStep w (takeWaiting w i)
  | putReqBack {i : ReqSlot} (hhand : w.reqs.hand = some i) : BkStep w (putReqBack w i)
  | takeOp {n : OpNode} {q : PhlQueue OpNode} (hhandling : w.ops.handling = none)
      (h : pqPop w.ops.q = some (n, q)) : BkStep w (takeOp w n q)
  | finishOp : BkStep w (finishOp w)

/-- The changes the thread makes between two callbacks. -/
def BkRun : CmdDispatcher → CmdDispatcher → Prop := Relation.ReflTransGen BkStep

/-! ## Sending -/

/-- The outcomes of `dispr_send_msg`: nothing was done, the message was refused after a slot had
been taken for it, or it was queued. -/
inductive Sent (w : CmdDispatcher) (id : MsgId) (attr : Option MsgAttr) :
    CmdDispatcher × RtwPhlStatus × Option (BitVec 32) → Prop where
  | rejected (st : RtwPhlStatus) (h : st ≠ .success ∧ st ≠ .failure) : Sent w id attr (w, st, none)
  | refused {i : MsgSlot} {p : MsgPool} (hstarted : w.status.started = true)
      (hattr : (attr.any fun a => a.idArr.isNone && decide (a.len ≠ 0)) = false)
      (hpop : w.msgs.popFrontIdleMsg = some (i, p))
      (howner : (w.newMsg id attr).status.ownerReq = true)
      (hlast : w.getCurCmdReqId.2.lastPermit = true)
      (habort : attr.any MsgAttr.sendInAbort = false) :
      Sent w id attr (w.refuseMsg p i (w.newMsg id attr), .failure, none)
  | queued {i : MsgSlot} {p : MsgPool} (hstarted : w.status.started = true)
      (hattr : (attr.any fun a => a.idArr.isNone && decide (a.len ≠ 0)) = false)
      (hpop : w.msgs.popFrontIdleMsg = some (i, p)) (hmay : w.mayNotSend id.mdlId = false)
      (habort : (w.newMsg id attr).status.ownerReq = true →
        w.getCurCmdReqId.2.lastPermit = true → attr.any MsgAttr.sendInAbort = true) :
      Sent w id attr (w.queueMsg p i (w.newMsg id attr)
        ((w.newMsg id attr).status.ownerReq && w.getCurCmdReqId.2.lastPermit), .success,
        some (genValidHdl i))

theorem disprSendMsg_sent (w : CmdDispatcher) (id : MsgId) (attr : Option MsgAttr) :
    Sent w id attr (w.disprSendMsg id attr) := by
  unfold disprSendMsg
  simp only
  split
  next => exact .rejected _ (by simp)
  next hstarted =>
    split
    next => exact .rejected _ (by simp)
    next hattr =>
      split
      next => exact .rejected _ (by simp)
      next hmay =>
        split
        next => exact .rejected _ (by simp)
        next i p hpop =>
          split
          next h =>
            simp only [Bool.and_eq_true, Bool.not_eq_true'] at h
            exact .refused (by simpa using hstarted) (by simpa using hattr) hpop h.1.1 h.1.2 h.2
          next h =>
            refine .queued (by simpa using hstarted) (by simpa using hattr) hpop
              (by simpa using hmay) fun howner hlast => ?_
            simpa [howner, hlast] using h

/-- No current request has its last permit. -/
def NoLastPermit (w : CmdDispatcher) : Prop :=
  ∀ i, w.reqs.cur = some i → (w.reqs.pool i).status.lastPermit = false

theorem getCurCmdReqId_lastPermit {w : CmdDispatcher} (h : NoLastPermit w) :
    w.getCurCmdReqId.2.lastPermit = false := by
  unfold getCurCmdReqId
  cases hcur : w.reqs.cur with
  | none => rfl
  | some i => exact h i hcur

/-- Putting a message into the wait queue leaves the hands of the thread alone. -/
theorem MsgPool.enqueue_hand (p : MsgPool) (i : MsgSlot) (b : Bool) :
    (if b then p.insertMsgByPriority i else p.pushBackWaitMsg i).hand = p.hand ∧
      (if b then p.insertMsgByPriority i else p.pushBackWaitMsg i).notified = p.notified := by
  cases b <;> exact ⟨rfl, rfl⟩

theorem MsgPool.popFrontIdleMsg_hand {p p' : MsgPool} {i : MsgSlot}
    (h : p.popFrontIdleMsg = some (i, p')) :
    p'.hand = p.hand ∧ p'.notified = p.notified := by
  obtain ⟨x, -, hx⟩ := Option.map_eq_some_iff.mp h
  obtain ⟨-, rfl⟩ := Prod.mk.inj hx
  exact ⟨rfl, rfl⟩

/-- What a send leaves alone. -/
structure SendFrame (w w' : CmdDispatcher) : Prop where
  reqs : w'.reqs = w.reqs
  ops : w'.ops = w.ops
  modules : w'.modules = w.modules
  msgHand : w'.msgs.hand = w.msgs.hand
  notified : w'.msgs.notified = w.msgs.notified
  waitAbort : NoLastPermit w → w'.status.waitAbortMsgDone = w.status.waitAbortMsgDone

theorem disprSendMsg_frame (w : CmdDispatcher) (id : MsgId) (attr : Option MsgAttr) :
    SendFrame w (w.disprSendMsg id attr).1 := by
  have hsent := disprSendMsg_sent w id attr
  generalize w.disprSendMsg id attr = r at hsent
  cases hsent with
  | rejected st h => exact ⟨rfl, rfl, rfl, rfl, rfl, fun _ => rfl⟩
  | refused hstarted hattr hpop howner hlast habort =>
    obtain ⟨hhand, hnot⟩ := MsgPool.popFrontIdleMsg_hand hpop
    refine ⟨rfl, rfl, rfl, ?_, ?_, fun _ => rfl⟩
    · simp only [refuseMsg]
      split <;> exact hhand
    · simp only [refuseMsg]
      split <;> exact hnot
  | queued hstarted hattr hpop hmay habort =>
    obtain ⟨hhand, hnot⟩ := MsgPool.popFrontIdleMsg_hand hpop
    refine ⟨rfl, rfl, rfl, ?_, ?_, fun hno => ?_⟩
    · exact (MsgPool.enqueue_hand _ _ _).1.trans hhand
    · exact (MsgPool.enqueue_hand _ _ _).2.trans hnot
    · simp [queueMsg, getCurCmdReqId_lastPermit hno]

/-! ## The other calls of the API -/

theorem disprCancelMsg_cases (w : CmdDispatcher) (hdl : BitVec 32) :
    ((w.disprCancelMsg hdl).1 = w ∧ (w.disprCancelMsg hdl).2 ≠ .success) ∨
      ∃ i : MsgSlot, getIdxFromHdl hdl = i ∧ w.status.started = true ∧
        ((w.msgs.pool i).status.enq = true ∨ (w.msgs.pool i).status.run = true) ∧
        w.disprCancelMsg hdl = (w.onMsgs fun p => p.cancelMsg i, .success) := by
  unfold disprCancelMsg
  split
  next => exact Or.inl ⟨rfl, by simp⟩
  next hstarted =>
    split
    next => exact Or.inl ⟨rfl, by simp⟩
    next =>
      split
      next hlt =>
        simp only
        split
        next => exact Or.inl ⟨rfl, by simp⟩
        next hst =>
          refine Or.inr ⟨⟨getIdxFromHdl hdl, hlt⟩, rfl, by simpa using hstarted, ?_, rfl⟩
          simpa [Classical.or_iff_not_imp_left] using hst
      next => exact Or.inl ⟨rfl, by simp⟩

/-- The dispatcher after a request has been added in the slot `i`. -/
def addedReq (w : CmdDispatcher) (i : ReqSlot) (q : PhlQueue ReqSlot) (req : TokenReq) :
    CmdDispatcher :=
  { w with
    reqs := { w.reqs with
      pool := Function.update (Function.update w.reqs.pool i {}) i
        { status := { enq := true }, moduleId := req.moduleId }
      idleQ := q
      waitQ := pqPush w.reqs.waitQ i
      gen := Function.update w.reqs.gen i (w.reqs.gen i + 1) }
    ops := { w.ops with
      info := Function.update
        (Function.update (Function.update w.ops.info (.addReq i) {}) (.freeReq i) {}) (.addReq i)
        ⟨true, some .addCmdReq, i⟩
      q := pqPush w.ops.q (.addReq i)
      accepted := w.ops.accepted ++
        [⟨.addReq i, some .addCmdReq, i, some (w.reqs.gen i + 1)⟩] } }

theorem pushBackTokenOpInfo_of_unused {w : CmdDispatcher} {n : OpNode}
    (h : (w.ops.info n).used = false) (type : OpType) (data : ℕ) :
    w.pushBackTokenOpInfo n type data =
      (w.onOps fun o => { o with
        info := Function.update o.info n ⟨true, some type, data⟩
        q := pqPush o.q n
        accepted := o.accepted ++ [⟨n, some type, data, w.genAt data⟩] }, true) := by
  rw [pushBackTokenOpInfo, if_neg (by simp [h])]

theorem disprAddTokenReq_cases (w : CmdDispatcher) (req : TokenReq) :
    ((w.disprAddTokenReq req).1 = w ∧ (w.disprAddTokenReq req).2.2 = none) ∨
      ∃ i q, pqPop w.reqs.idleQ = some (i, q) ∧ w.status.started = true ∧
        chkCmdReqOps req = true ∧ phlFgMdlStart ≤ req.moduleId ∧ (w.disprAddTokenReq req).1 =
          addedReq w i q req ∧
        (w.disprAddTokenReq req).2.2 = some (genValidHdl i) := by
  unfold disprAddTokenReq
  split
  next => exact Or.inl ⟨rfl, rfl⟩
  next hchk =>
    simp only [Bool.or_eq_true, Bool.not_eq_true', not_or, Bool.not_eq_false] at hchk
    have hops := hchk.2
    simp only [chkCmdReqOps, Bool.and_eq_true, decide_eq_true_eq] at hops
    cases hpop : pqPop w.reqs.idleQ with
    | none => exact Or.inl (by simp [popFrontIdleReq, hpop])
    | some x =>
      obtain ⟨i, q⟩ := x
      refine Or.inr ⟨i, q, rfl, hchk.1, hchk.2, hops.1, ?_, ?_⟩
      · simp only [popFrontIdleReq, hpop, Option.map_some]
        rw [pushBackTokenOpInfo_of_unused (by simp [onReqs])]
        simp [genAt, addedReq, onOps, onReqs, pushBackWaitReq]
      · simp [popFrontIdleReq, hpop]

/-- The state after the marking of a request and the queueing of its op node. -/
theorem enqueueFree_cases (w : CmdDispatcher) (i : ReqSlot) (type : OpType) :
    ((w.ops.info (.freeReq i)).used = true ∧ w.enqueueFree i type =
        (w.onReqs fun p => p.editStatus i fun st => { st with cancel := true }, .failure)) ∨
      (w.ops.info (.freeReq i)).used = false ∧ w.enqueueFree i type =
        ({ w with
            reqs := w.reqs.editStatus i fun st => { st with cancel := true }
            ops := { w.ops with
              info := Function.update w.ops.info (.freeReq i) ⟨true, some type, i⟩
              q := pqPush w.ops.q (.freeReq i)
              accepted := w.ops.accepted ++
                [⟨.freeReq i, some type, i, some (w.reqs.gen i)⟩] } }, .success) := by
  cases hused : (w.ops.info (.freeReq i)).used with
  | true => exact Or.inl ⟨rfl, by simp [enqueueFree, pushBackTokenOpInfo, onReqs, hused]⟩
  | false =>
    refine Or.inr ⟨rfl, ?_⟩
    simp [enqueueFree, pushBackTokenOpInfo, onReqs, onOps, hused, genAt, ReqPool.editStatus]

theorem disprCancelTokenReq_cases (w : CmdDispatcher) (hdl : BitVec 32) :
    ((w.disprCancelTokenReq hdl).1 = w ∧ (w.disprCancelTokenReq hdl).2 ≠ .success) ∨
      ∃ i : ReqSlot, getIdxFromHdl hdl = i ∧ w.status.started = true ∧
        ((w.reqs.pool i).status.enq = true ∨ (w.reqs.pool i).status.run = true ∨
          (w.reqs.pool i).status.prepare = true) ∧
        w.disprCancelTokenReq hdl = w.enqueueFree i .cancelCmdReq := by
  unfold disprCancelTokenReq
  split
  next => exact Or.inl ⟨rfl, by simp⟩
  next hstarted =>
    split
    next => exact Or.inl ⟨rfl, by simp⟩
    next =>
      split
      next hlt =>
        simp only
        split
        next => exact Or.inl ⟨rfl, by simp⟩
        next hst =>
          refine Or.inr ⟨⟨getIdxFromHdl hdl, hlt⟩, rfl, by simpa using hstarted, ?_, rfl⟩
          simp only [Bool.and_eq_true, Bool.not_eq_true', not_and_or, Bool.not_eq_false] at hst
          rcases hst with (hst | hst) | hst
          · exact Or.inl hst
          · exact Or.inr (Or.inl hst)
          · exact Or.inr (Or.inr hst)
      next => exact Or.inl ⟨rfl, by simp⟩

theorem disprFreeToken_cases (w : CmdDispatcher) (hdl : BitVec 32) :
    ((w.disprFreeToken hdl).1 = w ∧ (w.disprFreeToken hdl).2 ≠ .success) ∨
      ∃ i : ReqSlot, getIdxFromHdl hdl = i ∧ w.status.started = true ∧
        ((w.reqs.pool i).status.run = true ∨ (w.reqs.pool i).status.prepare = true) ∧
        w.disprFreeToken hdl = w.enqueueFree i .freeCmdReq := by
  unfold disprFreeToken
  split
  next => exact Or.inl ⟨rfl, by simp⟩
  next hstarted =>
    split
    next => exact Or.inl ⟨rfl, by simp⟩
    next =>
      split
      next hlt =>
        simp only
        split
        next => exact Or.inl ⟨rfl, by simp⟩
        next hst =>
          refine Or.inr ⟨⟨getIdxFromHdl hdl, hlt⟩, rfl, by simpa using hstarted, ?_, rfl⟩
          simp only [Bool.and_eq_true, Bool.not_eq_true', not_and_or, Bool.not_eq_false] at hst
          exact hst
      next => exact Or.inl ⟨rfl, by simp⟩

/-! ## What the thread relies on -/

/-- What calls of the API leave alone: what the thread has in hand, and the current request as far
as the thread has decided about it. -/
structure Rely (w w' : CmdDispatcher) : Prop where
  msgHand : w'.msgs.hand = w.msgs.hand
  notified : w'.msgs.notified = w.msgs.notified
  reqHand : w'.reqs.hand = w.reqs.hand
  cur : w'.reqs.cur = w.reqs.cur
  handling : w'.ops.handling = w.ops.handling
  noLastPermit : NoLastPermit w → NoLastPermit w'
  waitAbort : NoLastPermit w → w'.status.waitAbortMsgDone = w.status.waitAbortMsgDone
  inv : w.reqs.Inv → w'.reqs.Inv

theorem Rely.refl (w : CmdDispatcher) : Rely w w :=
  ⟨rfl, rfl, rfl, rfl, rfl, fun h => h, fun _ => rfl, fun h => h⟩

theorem Rely.trans {w w' w'' : CmdDispatcher} (h : Rely w w') (h' : Rely w' w'') : Rely w w'' where
  msgHand := h'.msgHand.trans h.msgHand
  notified := h'.notified.trans h.notified
  reqHand := h'.reqHand.trans h.reqHand
  cur := h'.cur.trans h.cur
  handling := h'.handling.trans h.handling
  noLastPermit hno := h'.noLastPermit (h.noLastPermit hno)
  waitAbort hno := (h'.waitAbort (h.noLastPermit hno)).trans (h.waitAbort hno)
  inv hinv := h'.inv (h.inv hinv)

theorem SendFrame.rely {w w' : CmdDispatcher} (h : SendFrame w w') : Rely w w' where
  msgHand := h.msgHand
  notified := h.notified
  reqHand := congrArg ReqPool.hand h.reqs
  cur := congrArg ReqPool.cur h.reqs
  handling := congrArg OpQueue.handling h.ops
  noLastPermit hno := by
    unfold NoLastPermit
    rw [h.reqs]
    exact hno
  waitAbort := h.waitAbort
  inv hinv := h.reqs.symm ▸ hinv

/-- Changes to the flags that the thread does not rely on. -/
theorem Rely.of_eq {w w' : CmdDispatcher} (hmsgs : w'.msgs.hand = w.msgs.hand)
    (hnot : w'.msgs.notified = w.msgs.notified) (hreqs : w'.reqs = w.reqs)
    (hops : w'.ops.handling = w.ops.handling)
    (hwait : w'.status.waitAbortMsgDone = w.status.waitAbortMsgDone) : Rely w w' where
  msgHand := hmsgs
  notified := hnot
  reqHand := congrArg ReqPool.hand hreqs
  cur := congrArg ReqPool.cur hreqs
  handling := hops
  noLastPermit hno := by
    unfold NoLastPermit
    rw [hreqs]
    exact hno
  waitAbort _ := hwait
  inv hinv := hreqs.symm ▸ hinv

theorem ReqPool.editStatus_lastPermit {p : ReqPool} {i j : ReqSlot} {f : ReqStatus → ReqStatus}
    (hf : ∀ st, (f st).lastPermit = st.lastPermit) :
    ((p.editStatus i f).pool j).status.lastPermit = (p.pool j).status.lastPermit := by
  rcases eq_or_ne j i with rfl | hne
  · simp [ReqPool.editStatus, hf]
  · simp [ReqPool.editStatus, Function.update_of_ne hne]

theorem rely_enqueueFree (w : CmdDispatcher) {i : ReqSlot} (type : OpType)
    (hst : (w.reqs.pool i).status ≠ {}) : Rely w (w.enqueueFree i type).1 := by
  have hlast : NoLastPermit w → ∀ j, w.reqs.cur = some j →
      ((w.reqs.editStatus i fun st => { st with cancel := true }).pool j).status.lastPermit =
        false :=
    fun hno j hj => (ReqPool.editStatus_lastPermit (f := fun st => { st with cancel := true })
      fun _ => rfl).trans (hno j hj)
  rcases enqueueFree_cases w i type with ⟨-, heq⟩ | ⟨-, heq⟩
  · rw [heq]
    exact ⟨rfl, rfl, rfl, rfl, rfl, hlast, fun _ => rfl, fun h => h.cancelReq hst⟩
  · rw [heq]
    exact ⟨rfl, rfl, rfl, rfl, rfl, hlast, fun _ => rfl, fun h => h.cancelReq hst⟩

theorem rely_addedReq {w : CmdDispatcher} (h : w.reqs.Inv) {i : ReqSlot} {q : PhlQueue ReqSlot}
    (hpop : pqPop w.reqs.idleQ = some (i, q)) {req : TokenReq}
    (hreq : phlFgMdlStart ≤ req.moduleId) : Rely w (addedReq w i q req) := by
  refine ⟨rfl, rfl, rfl, rfl, rfl, fun hno j hj => ?_, fun _ => rfl,
    fun _ => h.add hpop ⟨rfl, rfl, hreq⟩ _⟩
  have hmem : i ∈ w.reqs.idleQ.queue := by simp [(PhlQueue.pop_spec hpop).1]
  have hne : j ≠ i := by
    rintro rfl
    exact (h.parted.sep_a hmem).2.1 (Option.mem_toList.mpr hj)
  simpa [addedReq, Function.update_of_ne hne] using hno j hj

theorem rely_stopPrior (w : CmdDispatcher) : Rely w w.disprThreadStopPriorHdl := by
  have hcancel : ∀ (l : List MsgSlot) (p : MsgPool),
      (l.foldl (fun p i => if (p.pool i).status.run then p.cancelMsg i else p) p).hand = p.hand ∧
        (l.foldl (fun p i => if (p.pool i).status.run then p.cancelMsg i else p) p).notified =
          p.notified := by
    intro l
    induction l with
    | nil => exact fun p => ⟨rfl, rfl⟩
    | cons i l ih =>
      intro p
      rw [List.foldl_cons]
      split
      · exact ih _
      · exact ih _
  refine ⟨(hcancel _ _).1, (hcancel _ _).2, rfl, rfl, rfl, fun hno j hj => ?_, fun _ => rfl,
    fun h => h.cancelAllCmdReq⟩
  have hlast := hno j hj
  rcases w.reqs.cancelAllCmdReq_pool j with hpool | ⟨-, hpool⟩
  · simpa [disprThreadStopPriorHdl, hpool] using hlast
  · simpa [disprThreadStopPriorHdl, hpool] using hlast

theorem rely_sendDevIoStatusChange (w : CmdDispatcher) (allowIo : Bool) :
    Rely w (w.sendDevIoStatusChange allowIo) :=
  (disprSendMsg_frame w _ _).rely

theorem rely_clrPendingMsg (w : CmdDispatcher) : Rely w w.disprClrPendingMsg :=
  Rely.of_eq rfl rfl rfl rfl rfl

theorem rely_notifyDevIoStatus (w : CmdDispatcher) (mdlId : ℕ) (allowIo : Bool) :
    Rely w (w.disprNotifyDevIoStatus mdlId allowIo) := by
  unfold disprNotifyDevIoStatus
  split
  · split
    · exact Rely.refl w
    · refine Rely.trans ?_ (rely_sendDevIoStatusChange _ _)
      exact Rely.of_eq rfl rfl rfl rfl rfl
  · split
    · refine Rely.trans ?_ ((rely_sendDevIoStatusChange _ _).trans (rely_clrPendingMsg _))
      exact Rely.of_eq rfl rfl rfl rfl rfl
    · exact Rely.refl w

/-- Every call of the API keeps what the thread relies on. -/
theorem rely_api {w : CmdDispatcher} (h : w.reqs.Inv) (a : Api) : Rely w (w.api a) := by
  cases a with
  | sendMsg id attr => exact (disprSendMsg_frame w id attr).rely
  | cancelMsg hdl =>
    simp only [CmdDispatcher.api]
    rcases disprCancelMsg_cases w hdl with ⟨heq, -⟩ | ⟨i, -, -, -, heq⟩
    · rw [heq]
      exact Rely.refl w
    · rw [heq]
      exact Rely.of_eq rfl rfl rfl rfl rfl
  | clrPendingMsg => exact rely_clrPendingMsg w
  | addTokenReq req =>
    simp only [CmdDispatcher.api]
    rcases disprAddTokenReq_cases w req with ⟨heq, -⟩ | ⟨i, q, hpop, -, -, hreq, heq, -⟩
    · rw [heq]
      exact Rely.refl w
    · rw [heq]
      exact rely_addedReq h hpop hreq
  | cancelTokenReq hdl =>
    simp only [CmdDispatcher.api]
    rcases disprCancelTokenReq_cases w hdl with ⟨heq, -⟩ | ⟨i, -, -, hst, heq⟩
    · rw [heq]
      exact Rely.refl w
    · rw [heq]
      refine rely_enqueueFree w _ fun hnil => ?_
      simp [hnil] at hst
  | freeToken hdl =>
    simp only [CmdDispatcher.api]
    rcases disprFreeToken_cases w hdl with ⟨heq, -⟩ | ⟨i, -, -, hst, heq⟩
    · rw [heq]
      exact Rely.refl w
    · rw [heq]
      refine rely_enqueueFree w _ fun hnil => ?_
      simp [hnil] at hst
  | notifyDevIoStatus mdlId allowIo => exact rely_notifyDevIoStatus w mdlId allowIo
  | stopPrior => exact rely_stopPrior w
  | stopThread => exact Rely.of_eq rfl rfl rfl rfl rfl

/-! ## The steps of the thread keep the request pool in order -/

theorem BkStep.reqs_inv {w w' : CmdDispatcher} (h : BkStep w w') (hinv : w.reqs.Inv) :
    w'.reqs.Inv := by
  cases h with
  | flags c n => exact hinv
  | requeue h => exact hinv
  | unpend h => exact hinv
  | takeMsg hhand h => exact hinv
  | editMsg hhand h => exact hinv
  | fire hhand hnot hc hn => exact hinv
  | clrNotify hhand hnot => exact hinv
  | recycle hhand h =>
    unfold recycleMsg onAbortMsgComplete pushBackTokenOpInfo
    split
    · split <;> exact hinv
    · exact hinv
  | reschedule hhand hnot => exact hinv
  | disown hcur h => exact hinv
  | sendPhy evt => exact (disprSendMsg_frame w _ _).reqs.symm ▸ hinv
  | takeReq hhand h => exact (hinv.popFrontWaitReq hhand h).1
  | takeToken hhand henq hcur hwait => exact hinv.takeToken hhand henq hcur
  | @stopRun i hcur =>
    obtain ⟨hidle, hwait, hhand⟩ := hinv.parted.sep_c (x := i) (by simp [hcur])
    have hc := hinv.cur i (by simp [hcur])
    refine hinv.editStatus (f := fun st => { st with run := false }) hidle (fun hw => ?_)
      fun _ => ⟨hc.enq, fun _ => rfl⟩
    rcases hw with hw | hw
    · exact absurd hw hwait
    · exact absurd (Option.mem_toList.mpr hw) hhand
  | @lastPermit i b hcur hb =>
    obtain ⟨hidle, hwait, hhand⟩ := hinv.parted.sep_c (x := i) (by simp [hcur])
    have hc := hinv.cur i (by simp [hcur])
    refine hinv.editStatus (f := fun st => { st with lastPermit := b }) hidle (fun hw => ?_)
      fun _ => ⟨hc.enq, hb⟩
    rcases hw with hw | hw
    · exact absurd hw hwait
    · exact absurd (Option.mem_toList.mpr hw) hhand
  | releaseToken hcur => exact hinv.releaseToken hcur
  | takeWaiting hhand henq => exact hinv.takeWaiting hhand (hinv.mem_wait_of_enq henq hhand)
  | putReqBack hhand => exact hinv.putBack hhand
  | takeOp hhandling h => exact hinv
  | finishOp =>
    unfold Dispatcher.finishOp
    split <;> exact hinv

theorem BkRun.reqs_inv {w w' : CmdDispatcher} (h : BkRun w w') (hinv : w.reqs.Inv) :
    w'.reqs.Inv := by
  induction h with
  | refl => exact hinv
  | tail _ hstep ih => exact hstep.reqs_inv ih

end Rtl88x2cu.Dispatcher
