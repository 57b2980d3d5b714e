import Rtl88x2cu.Dispatcher.Walk

/-!
# Command dispatcher: where the messages are

`MsgPool.Inv` says that every message slot is in exactly one place (the idle, the wait or the
pending queue, or the hands of the thread), that the counters of the queues are right, and what
the status words say about the places. It holds in every state of every run.
-/

namespace Rtl88x2cu.Dispatcher

open CmdDispatcher

/-- An idle slot. -/
structure MsgEx.Idle (m : MsgEx) : Prop where
  status : m.status = {}
  mdlId : m.id.mdlId = 0

/-- A message in the wait or the pending queue. -/
structure MsgEx.Queued (m : MsgEx) : Prop where
  enq : m.status.enq = true
  run : m.status.run = false

/-- A message in the hands of the thread. -/
structure MsgEx.Running (m : MsgEx) : Prop where
  enq : m.status.enq = false
  run : m.status.run = true

namespace MsgPool

/-- The invariant of the message pool. -/
structure Inv (p : MsgPool) : Prop where
  parted : p.Parted
  wf : p.QueuesWf
  idle : ∀ i ∈ p.idleQ.queue, (p.pool i).Idle
  wait : ∀ i ∈ p.waitQ.queue, (p.pool i).Queued
  pend : ∀ i ∈ p.pendQ.queue, (p.pool i).Queued
  hand : ∀ i ∈ p.hand.toList, (p.pool i).Running

variable {p p' : MsgPool} {i : MsgSlot}

theorem inv_init : initDisprMsgPool.Inv where
  parted := ⟨by decide, by decide⟩
  wf := ⟨by decide, by decide, by decide⟩
  idle _ _ := ⟨rfl, rfl⟩
  wait := by simp [initDisprMsgPool, pqInit]
  pend := by simp [initDisprMsgPool, pqInit]
  hand := by simp [initDisprMsgPool]

/-- Changes that keep the places, and what the status words say about them. -/
theorem Inv.of_same (h : p.Inv) (hidleQ : p'.idleQ = p.idleQ) (hwaitQ : p'.waitQ = p.waitQ)
    (hpendQ : p'.pendQ = p.pendQ) (hhand : p'.hand = p.hand)
    (hidle : ∀ j ∈ p.idleQ.queue, p'.pool j = p.pool j)
    (hst : ∀ j, (p'.pool j).status.enq = (p.pool j).status.enq ∧
      (p'.pool j).status.run = (p.pool j).status.run) : p'.Inv where
  parted := by
    have hparted := h.parted
    unfold Parted at hparted ⊢
    rwa [hidleQ, hwaitQ, hpendQ, hhand]
  wf := ⟨hidleQ ▸ h.wf.idle, hwaitQ ▸ h.wf.wait, hpendQ ▸ h.wf.pend⟩
  idle j hj := by
    rw [hidleQ] at hj
    rw [hidle j hj]
    exact h.idle j hj
  wait j hj := by
    have hq := h.wait j (hwaitQ ▸ hj)
    exact ⟨(hst j).1.trans hq.enq, (hst j).2.trans hq.run⟩
  pend j hj := by
    have hq := h.pend j (hpendQ ▸ hj)
    exact ⟨(hst j).1.trans hq.enq, (hst j).2.trans hq.run⟩
  hand j hj := by
    have hr := h.hand j (hhand ▸ hj)
    exact ⟨(hst j).1.trans hr.enq, (hst j).2.trans hr.run⟩

/-- A change to one message that is not idle. -/
theorem Inv.set (h : p.Inv) {m : MsgEx} (hi : i ∉ p.idleQ.queue)
    (henq : m.status.enq = (p.pool i).status.enq) (hrun : m.status.run = (p.pool i).status.run) :
    (p.set i m).Inv := by
  refine h.of_same rfl rfl rfl rfl (fun j hj => ?_) fun j => ?_
  · have hne : j ≠ i := fun heq => hi (heq ▸ hj)
    exact Function.update_of_ne hne _ _
  · rcases eq_or_ne j i with rfl | hne
    · simpa [MsgPool.set] using ⟨henq, hrun⟩
    · simp [MsgPool.set, Function.update_of_ne hne]

theorem Inv.not_idle (h : p.Inv)
    (hst : (p.pool i).status.enq = true ∨ (p.pool i).status.run = true) : i ∉ p.idleQ.queue := by
  intro hi
  simp [(h.idle i hi).status] at hst

theorem Inv.not_idle_of_hand (h : p.Inv) (hhand : p.hand = some i) : i ∉ p.idleQ.queue :=
  (h.parted.sep_d (by simp [hhand])).1

/-- A message that is not idle is queued or in hand. -/
theorem Inv.in_use (h : p.Inv) (hi : i ∉ p.idleQ.queue) :
    (p.pool i).Queued ∨ (p.pool i).Running := by
  rcases h.parted.mem_or (List.mem_finRange i) with hmem | hmem | hmem | hmem
  · exact absurd hmem hi
  · exact Or.inl (h.wait i hmem)
  · exact Or.inl (h.pend i hmem)
  · exact Or.inr (h.hand i hmem)

/-! ### Putting a message into a queue -/

/-- A slot that is in none of the places. -/
structure Loose (p : MsgPool) (i : MsgSlot) : Prop where
  parted : Placed (List.finRange 24) p.idleQ.queue p.waitQ.queue p.pendQ.queue
    (i :: p.hand.toList)
  wf : p.QueuesWf
  idle : ∀ j ∈ p.idleQ.queue, (p.pool j).Idle
  wait : ∀ j ∈ p.waitQ.queue, (p.pool j).Queued
  pend : ∀ j ∈ p.pendQ.queue, (p.pool j).Queued
  hand : ∀ j ∈ p.hand.toList, (p.pool j).Running

theorem Loose.not_mem (h : p.Loose i) :
    i ∉ p.idleQ.queue ∧ i ∉ p.waitQ.queue ∧ i ∉ p.pendQ.queue ∧ i ∉ p.hand.toList := by
  obtain ⟨hidle, hwait, hpend⟩ := h.parted.sep_d List.mem_cons_self
  have hnodup := h.parted.rotate.rotate.rotate.nodup_a
  exact ⟨hidle, hwait, hpend, (List.nodup_cons.mp hnodup).1⟩

/-- Whatever is written to a loose slot. -/
theorem Loose.set (h : p.Loose i) (m : MsgEx) : (p.set i m).Loose i := by
  obtain ⟨hidle, hwait, hpend, hhand⟩ := h.not_mem
  exact
    { parted := h.parted
      wf := ⟨h.wf.idle, h.wf.wait, h.wf.pend⟩
      idle := forall_update (P := fun _ (m : MsgEx) => m.Idle) h.idle hidle
      wait := forall_update (P := fun _ (m : MsgEx) => m.Queued) h.wait hwait
      pend := forall_update (P := fun _ (m : MsgEx) => m.Queued) h.pend hpend
      hand := forall_update (P := fun _ (m : MsgEx) => m.Running) h.hand hhand }

/-- The bookkeeping does not matter. -/
theorem Loose.congr (h : p.Loose i) (hpool : p'.pool = p.pool) (hidleQ : p'.idleQ = p.idleQ)
    (hwaitQ : p'.waitQ = p.waitQ) (hpendQ : p'.pendQ = p.pendQ) (hhand : p'.hand = p.hand) :
    p'.Loose i := by
  refine ⟨?_, ⟨?_, ?_, ?_⟩, ?_, ?_, ?_, ?_⟩
  · rw [hidleQ, hwaitQ, hpendQ, hhand]
    exact h.parted
  · exact hidleQ ▸ h.wf.idle
  · exact hwaitQ ▸ h.wf.wait
  · exact hpendQ ▸ h.wf.pend
  · rw [hidleQ, hpool]
    exact h.idle
  · rw [hwaitQ, hpool]
    exact h.wait
  · rw [hpendQ, hpool]
    exact h.pend
  · rw [hhand, hpool]
    exact h.hand

/-- A loose slot is put into the wait queue, at any position. -/
theorem Loose.enqueue (h : p.Loose i) {q : PhlQueue MsgSlot} (hwf : q.Wf)
    (hq : q.queue.Perm (i :: p.waitQ.queue)) : Inv { p.edit i MsgEx.queued with waitQ := q } := by
  have hset := h.set (p.pool i).queued
  refine
    { parted := h.parted.of_perm ?_
      wf := ⟨h.wf.idle, hwf, h.wf.pend⟩
      idle := hset.idle
      wait := fun j hj => ?_
      pend := hset.pend
      hand := hset.hand }
  · rw [List.perm_iff_count]
    intro k
    have hcount := hq.count_eq k
    simp only [List.count_cons] at hcount
    simp only [MsgPool.edit, MsgPool.set, List.count_append, List.count_cons]
    omega
  · rcases List.mem_cons.mp (hq.mem_iff.mp hj) with rfl | hj
    · simpa [MsgPool.edit, MsgPool.set, MsgEx.queued] using ⟨rfl, rfl⟩
    · exact hset.wait j hj

theorem Loose.pushBackWaitMsg (h : p.Loose i) : (p.pushBackWaitMsg i).Inv :=
  h.enqueue (h.wf.wait.push i) (List.perm_append_singleton i p.waitQ.queue)

theorem Loose.insertMsgByPriority (h : p.Loose i) : (p.insertMsgByPriority i).Inv :=
  h.enqueue (h.wf.wait.insert _ i) (PhlQueue.insert_perm _ _ i)

theorem Loose.requeuePending (h : p.Loose i) : (p.requeuePending i).Inv := by
  unfold MsgPool.requeuePending
  split
  · exact h.insertMsgByPriority
  · exact h.pushBackWaitMsg

theorem Loose.pushBackPendingMsg (h : p.Loose i) : (p.pushBackPendingMsg i).Inv := by
  have hset := h.set (p.pool i).queued
  refine
    { parted := h.parted.of_perm ?_
      wf := ⟨h.wf.idle, h.wf.wait, h.wf.pend.push i⟩
      idle := hset.idle
      wait := hset.wait
      pend := fun j hj => ?_
      hand := hset.hand }
  · rw [List.perm_iff_count]
    intro k
    simp only [MsgPool.pushBackPendingMsg, MsgPool.edit, MsgPool.set, pqPush, List.count_append,
      List.count_cons, List.count_nil]
    omega
  · rcases List.mem_append.mp hj with hj | hj
    · exact hset.pend j hj
    · obtain rfl : j = i := by simpa using hj
      simpa [MsgPool.pushBackPendingMsg, MsgPool.edit, MsgPool.set, MsgEx.queued] using ⟨rfl, rfl⟩

theorem Loose.putIdle (h : p.Loose i) : (p.putIdle i).Inv := by
  have hset := h.set { p.pool i with status := {}, id := {} }
  refine
    { parted := h.parted.of_perm ?_
      wf := ⟨h.wf.idle.push i, h.wf.wait, h.wf.pend⟩
      idle := fun j hj => ?_
      wait := hset.wait
      pend := hset.pend
      hand := hset.hand }
  · rw [List.perm_iff_count]
    intro k
    simp only [MsgPool.putIdle, pqPush, List.count_append, List.count_cons, List.count_nil]
    omega
  · rcases List.mem_append.mp hj with hj | hj
    · exact hset.idle j hj
    · obtain rfl : j = i := by simpa using hj
      simpa [MsgPool.putIdle] using ⟨rfl, rfl⟩

/-! ### Taking a message from its place -/

theorem Inv.popFrontIdleMsg (h : p.Inv) (hpop : p.popFrontIdleMsg = some (i, p')) :
    p'.Loose i := by
  obtain ⟨⟨j, q⟩, hq, hx⟩ := Option.map_eq_some_iff.mp hpop
  obtain ⟨rfl, rfl⟩ := Prod.mk.inj hx
  obtain ⟨hqueue, -⟩ := PhlQueue.pop_spec hq
  refine Loose.set (p := { p with idleQ := q }) ?_ {}
  refine ⟨h.parted.of_perm ?_, ⟨h.wf.idle.pop hq, h.wf.wait, h.wf.pend⟩, fun k hk => ?_, h.wait,
    h.pend, h.hand⟩
  · rw [hqueue, List.perm_iff_count]
    intro k
    simp only [List.count_append, List.count_cons]
    omega
  · exact h.idle k (by simp [hqueue, show k ∈ q.queue from hk])

theorem Inv.popPending (h : p.Inv) {q : PhlQueue MsgSlot} (hq : pqPop p.pendQ = some (i, q)) :
    Loose { p with pendQ := q } i := by
  obtain ⟨hqueue, -⟩ := PhlQueue.pop_spec hq
  refine ⟨h.parted.of_perm ?_, ⟨h.wf.idle, h.wf.wait, h.wf.pend.pop hq⟩, h.idle, h.wait,
    fun k hk => ?_, h.hand⟩
  · rw [hqueue, List.perm_iff_count]
    intro k
    simp only [List.count_append, List.count_cons]
    omega
  · exact h.pend k (by simp [hqueue, show k ∈ q.queue from hk])

/-- The message in hand is let go of. -/
theorem Inv.release (h : p.Inv) (hhand : p.hand = some i) : Loose { p with hand := none } i := by
  refine ⟨h.parted.of_perm ?_, ⟨h.wf.idle, h.wf.wait, h.wf.pend⟩, h.idle, h.wait, h.pend,
    by simp⟩
  rw [hhand]
  simp

theorem Inv.popFrontWaitMsg (h : p.Inv) (hhand : p.hand = none)
    (hpop : p.popFrontWaitMsg = some (i, p')) : p'.Inv := by
  obtain ⟨⟨j, q⟩, hq, hx⟩ := Option.map_eq_some_iff.mp hpop
  obtain ⟨rfl, rfl⟩ := Prod.mk.inj hx
  obtain ⟨hqueue, -⟩ := PhlQueue.pop_spec hq
  have hloose : Loose { p with waitQ := q } j := by
    refine ⟨h.parted.of_perm ?_, ⟨h.wf.idle, h.wf.wait.pop hq, h.wf.pend⟩, h.idle,
      fun k hk => ?_, h.pend, h.hand⟩
    · rw [hqueue, List.perm_iff_count]
      intro k
      simp only [List.count_append, List.count_cons]
      omega
    · exact h.wait k (by simp [hqueue, show k ∈ q.queue from hk])
  have hset := hloose.set (p.pool j).popped
  refine
    { parted := ?_
      wf := ⟨hset.wf.idle, hset.wf.wait, hset.wf.pend⟩
      idle := hset.idle
      wait := hset.wait
      pend := hset.pend
      hand := fun k hk => ?_ }
  · have hparted := hset.parted
    simpa [MsgPool.Parted, MsgPool.edit, MsgPool.set, hhand] using hparted
  · obtain rfl : k = j := by simpa [MsgPool.edit, MsgPool.set] using hk
    simpa [MsgPool.edit, MsgPool.set, MsgEx.popped] using ⟨rfl, rfl⟩

/-! ### Changes to messages that stay where they are -/

/-- The bookkeeping and the pending events do not matter. -/
theorem Inv.congr (h : p.Inv) (hpool : p'.pool = p.pool) (hidleQ : p'.idleQ = p.idleQ)
    (hwaitQ : p'.waitQ = p.waitQ) (hpendQ : p'.pendQ = p.pendQ) (hhand : p'.hand = p.hand) :
    p'.Inv :=
  h.of_same hidleQ hwaitQ hpendQ hhand (fun j _ => congrFun hpool j) fun j => by
    rw [hpool]
    exact ⟨rfl, rfl⟩

theorem Inv.cancelMsg (h : p.Inv) (hi : i ∉ p.idleQ.queue) : (p.cancelMsg i).Inv :=
  h.set hi rfl rfl

theorem Inv.disown (h : p.Inv) (hi : i ∉ p.idleQ.queue) : (p.disown i).Inv :=
  Inv.cancelMsg (p := p.edit i fun m => { m with status := { m.status with ownerReq := false } })
    (h.set hi rfl rfl) hi

theorem Inv.fireCompletion (h : p.Inv) (hi : i ∉ p.idleQ.queue) : (p.fireCompletion i).Inv := by
  have hset : (p.edit i fun m => { m with
      id := { m.id with indcCancel := m.id.indcCancel || m.status.cancel } }).Inv :=
    h.set hi rfl rfl
  exact hset.congr rfl rfl rfl rfl rfl

/-- `cancel_running_msg`: the messages that run are not idle. -/
theorem Inv.cancelRunning (h : p.Inv) : (cancelRunningMsg p).Inv := by
  unfold cancelRunningMsg
  generalize List.finRange 24 = l
  induction l generalizing p with
  | nil => exact h
  | cons i l ih =>
    rw [List.foldl_cons]
    split
    next hrun => exact ih (h.cancelMsg (h.not_idle (Or.inr hrun)))
    next => exact ih h

end MsgPool

/-! ## Steps and calls -/

section Places

variable {w w' : CmdDispatcher} {i : MsgSlot}

theorem inv_refuseMsg {p : MsgPool} (h : p.Loose i) (m : MsgEx) :
    (w.refuseMsg p i m).msgs.Inv := by
  -- the records and the clock are bookkeeping
  have hloose : ∀ q : MsgPool, q.pool = p.pool → q.idleQ = p.idleQ → q.waitQ = p.waitQ →
      q.pendQ = p.pendQ → q.hand = p.hand →
      ((q.set i { m with id := { m.id with indcFail := true } }).putIdle i).Inv :=
    fun q hpool hidle hwait hpend hhand =>
      ((h.congr hpool hidle hwait hpend hhand).set _).putIdle
  unfold refuseMsg
  simp only
  split <;> exact hloose _ rfl rfl rfl rfl rfl

/-- What the refusal of a message changes, beside the slot. -/
structure RefuseFrame (p p' : MsgPool) (i : MsgSlot) : Prop where
  waitQ : p'.waitQ = p.waitQ
  pendQ : p'.pendQ = p.pendQ
  idleQ : p'.idleQ = pqPush p.idleQ i
  stamp : p'.stamp = p.stamp
  clock : p'.clock = p.clock + 1
  everPended : p'.everPended = p.everPended
  inAbort : p'.inAbort = p.inAbort
  pool : ∀ j, j ≠ i → p'.pool j = p.pool j

theorem refuseMsg_frame (w : CmdDispatcher) (p : MsgPool) (i : MsgSlot) (m : MsgEx) :
    RefuseFrame p (w.refuseMsg p i m).msgs i := by
  have hpool : ∀ (a b : MsgEx) (j : MsgSlot), j ≠ i →
      Function.update (Function.update p.pool i a) i b j = p.pool j := by
    intro a b j hj
    rw [Function.update_of_ne hj, Function.update_of_ne hj]
  unfold refuseMsg
  simp only
  split
  · exact ⟨rfl, rfl, rfl, rfl, rfl, rfl, rfl, hpool _ _⟩
  · exact ⟨rfl, rfl, rfl, rfl, rfl, rfl, rfl, hpool _ _⟩

theorem inv_queueMsg {p : MsgPool} (h : p.Loose i) (m : MsgEx) (forAbort : Bool) :
    (w.queueMsg p i m forAbort).msgs.Inv := by
  have hloose := h.set { m with status := { m.status with forAbort := forAbort, prePhase := true } }
  unfold queueMsg
  simp only
  split
  · refine MsgPool.Loose.insertMsgByPriority ?_
    exact hloose.congr rfl rfl rfl rfl rfl
  · refine MsgPool.Loose.pushBackWaitMsg ?_
    exact hloose.congr rfl rfl rfl rfl rfl

/-- `dispr_send_msg` keeps the message pool in order. -/
theorem inv_disprSendMsg (h : w.msgs.Inv) (id : MsgId) (attr : Option MsgAttr) :
    (w.disprSendMsg id attr).1.msgs.Inv := by
  have hsent := disprSendMsg_sent w id attr
  generalize w.disprSendMsg id attr = r at hsent
  cases hsent with
  | rejected st hst => exact h
  | refused hstarted hattr hpop howner hlast habort =>
      exact inv_refuseMsg (h.popFrontIdleMsg hpop) _
  | queued hstarted hattr hpop hmay habort => exact inv_queueMsg (h.popFrontIdleMsg hpop) _ _

theorem recycleMsg_msgs (w : CmdDispatcher) (i : MsgSlot) :
    (recycleMsg w i).msgs =
      { (w.msgs.putIdle i).record (.recycled (w.msgs.stamp i)) with hand := none } := by
  unfold recycleMsg onAbortMsgComplete pushBackTokenOpInfo
  split
  · split <;> rfl
  · rfl

theorem inv_recycleMsg (h : w.msgs.Inv) (hhand : w.msgs.hand = some i) :
    (recycleMsg w i).msgs.Inv := by
  rw [recycleMsg_msgs]
  exact (h.release hhand).putIdle.congr rfl rfl rfl rfl rfl

theorem inv_reschedule (h : w.msgs.Inv) (hhand : w.msgs.hand = some i) :
    (reschedule w i).msgs.Inv := by
  simp only [reschedule, onMsgs]
  split
  · exact (h.release hhand).pushBackPendingMsg
  · exact (h.release hhand).pushBackWaitMsg

/-- The messages of a request are not idle: no request has the module id of an idle slot. -/
theorem not_idle_of_owned (hreqs : w.reqs.Inv) (h : w.msgs.Inv) {j : ReqSlot}
    (hcur : w.reqs.cur = some j) (hid : (w.msgs.pool i).id.mdlId = (w.reqs.pool j).moduleId) :
    i ∉ w.msgs.idleQ.queue := by
  intro hi
  have hmod := (hreqs.cur j (by simp [hcur])).moduleId
  rw [← hid, (h.idle i hi).mdlId] at hmod
  exact absurd hmod (by decide)

/-- The steps of the thread keep the message pool in order. -/
theorem BkStep.msgs_inv (hstep : BkStep w w') (hreqs : w.reqs.Inv) (h : w.msgs.Inv) :
    w'.msgs.Inv := by
  cases hstep with
  | requeue hpop => exact (h.popPending hpop).requeuePending
  | unpend hpop => exact (h.popPending hpop).pushBackWaitMsg
  | takeMsg hhand hpop => exact h.popFrontWaitMsg hhand hpop
  | editMsg hhand hm => exact h.set (h.not_idle_of_hand hhand) hm.enq hm.run
  | fire hhand hnot hc hn => exact h.fireCompletion (h.not_idle_of_hand hhand)
  | clrNotify hhand hnot => exact h.set (h.not_idle_of_hand hhand) rfl rfl
  | recycle hhand hdone => exact inv_recycleMsg h hhand
  | reschedule hhand hnot => exact inv_reschedule h hhand
  | disown hcur hid => exact h.disown (not_idle_of_owned hreqs h hcur hid)
  | sendPhy evt => exact inv_disprSendMsg h _ _
  | finishOp =>
    unfold Dispatcher.finishOp
    split <;> exact h
  | releaseToken hcur => exact h.congr rfl rfl rfl rfl rfl
  | putReqBack hhand => exact h.congr rfl rfl rfl rfl rfl
  | _ => exact h

theorem enqueueFree_msgs (w : CmdDispatcher) (i : ReqSlot) (type : OpType) :
    (w.enqueueFree i type).1.msgs = w.msgs := by
  rcases enqueueFree_cases w i type with ⟨-, heq⟩ | ⟨-, heq⟩
  · rw [heq]
    rfl
  · rw [heq]

/-- A change of the I/O status sends at most one message. -/
theorem notifyDevIo_msgs (w : CmdDispatcher) (mdlId : ℕ) (allowIo : Bool) :
    (w.disprNotifyDevIoStatus mdlId allowIo).msgs = w.msgs ∨
      ∃ (w' : CmdDispatcher) (id : MsgId) (attr : Option MsgAttr),
        w'.msgs = w.msgs ∧ w'.reqs = w.reqs ∧
        (w.disprNotifyDevIoStatus mdlId allowIo).msgs = (w'.disprSendMsg id attr).1.msgs ∧
        id.mdlId = phlMdlPhyMgnt ∧ attr.bind MsgAttr.completion = none := by
  unfold disprNotifyDevIoStatus
  split
  · split
    · exact Or.inl rfl
    · refine Or.inr ⟨_, _, _, ?_, ?_, rfl, ?_, ?_⟩ <;> rfl
  · split
    · refine Or.inr ⟨_, _, _, ?_, ?_, rfl, ?_, ?_⟩ <;> rfl
    · exact Or.inl rfl

/-- The calls of the API keep the message pool in order. -/
theorem api_msgs_inv (h : w.msgs.Inv) (a : Api) : (w.api a).msgs.Inv := by
  cases a with
  | sendMsg id attr => exact inv_disprSendMsg h id attr
  | cancelMsg hdl =>
    simp only [CmdDispatcher.api]
    rcases disprCancelMsg_cases w hdl with ⟨heq, -⟩ | ⟨i, -, -, hst, heq⟩
    · rw [heq]
      exact h
    · rw [heq]
      exact h.cancelMsg (h.not_idle hst)
  | clrPendingMsg => exact h
  | addTokenReq req =>
    simp only [CmdDispatcher.api]
    rcases disprAddTokenReq_cases w req with ⟨heq, -⟩ | ⟨i, q, -, -, -, -, heq, -⟩
    · rw [heq]
      exact h
    · rw [heq]
      exact h
  | cancelTokenReq hdl =>
    simp only [CmdDispatcher.api]
    rcases disprCancelTokenReq_cases w hdl with ⟨heq, -⟩ | ⟨i, -, -, -, heq⟩
    · rw [heq]
      exact h
    · rw [heq, enqueueFree_msgs]
      exact h
  | freeToken hdl =>
    simp only [CmdDispatcher.api]
    rcases disprFreeToken_cases w hdl with ⟨heq, -⟩ | ⟨i, -, -, -, heq⟩
    · rw [heq]
      exact h
    · rw [heq, enqueueFree_msgs]
      exact h
  | notifyDevIoStatus mdlId allowIo =>
    simp only [CmdDispatcher.api]
    rcases notifyDevIo_msgs w mdlId allowIo with heq | ⟨w', id, attr, hmsgs, -, heq, -, -⟩
    · rw [heq]
      exact h
    · rw [heq]
      exact inv_disprSendMsg (hmsgs.symm ▸ h) id attr
  | stopPrior => exact h.cancelRunning
  | stopThread => exact h

end Places

end Rtl88x2cu.Dispatcher
