import Rtl88x2cu.Dispatcher.Completion
import Rtl88x2cu.Lib.Stratified

/-!
# Command dispatcher: the order of the wait queue

Messages of the dispatcher controller (module ids below 10) go before all others in the wait queue,
and messages that were never pended stay in the order in which they were sent, within their class.

`clear_pending_msg` looks up the class of a pended message in its event id, not in its module id.
A controller message with an event id of 10 or more is therefore put at the end of the wait queue.
`run_wait_ordered` proves the order for all sequences of operations on the queue in which such a
message meets no message of another module; `ctrl_message_overtaken` is the other case.
-/

namespace Rtl88x2cu.Dispatcher

open CmdDispatcher

namespace MsgPool

/-- The order of the wait queue. -/
structure WaitOrdered (p : MsgPool) : Prop where
  ctrlFirst : Stratified p.isCtrl p.waitQ.queue
  fifo : p.waitQ.queue.Pairwise fun i j =>
    p.everPended i = false → p.everPended j = false → p.isCtrl i = p.isCtrl j →
      p.stamp i < p.stamp j

variable {p p' : MsgPool} {i : MsgSlot}

/-- The order is about the messages in the queue. -/
theorem WaitOrdered.congr (h : p.WaitOrdered) (hwaitQ : p'.waitQ = p.waitQ)
    (hctrl : ∀ j ∈ p.waitQ.queue, p'.isCtrl j = p.isCtrl j)
    (hpended : ∀ j ∈ p.waitQ.queue, p'.everPended j = p.everPended j)
    (hstamp : ∀ j ∈ p.waitQ.queue, p'.stamp j = p.stamp j) : p'.WaitOrdered := by
  refine ⟨?_, ?_⟩
  · rw [hwaitQ]
    refine h.ctrlFirst.imp_of_mem fun {j k} hj hk hjk => ?_
    rw [hctrl j hj, hctrl k hk]
    exact hjk
  · rw [hwaitQ]
    refine h.fifo.imp_of_mem fun {j k} hj hk hjk => ?_
    rw [hctrl j hj, hctrl k hk, hpended j hj, hpended k hk, hstamp j hj, hstamp k hk]
    exact hjk

/-- A new message is the youngest, or was pended. -/
def Latest (p : MsgPool) (i : MsgSlot) : Prop :=
  p.everPended i = true ∨ ∀ j ∈ p.waitQ.queue, p.stamp j < p.stamp i

theorem Latest.lt (h : p.Latest i) {j : MsgSlot} (hj : j ∈ p.waitQ.queue)
    (hi : p.everPended i = false) : p.stamp j < p.stamp i := by
  rcases h with h | h
  · rw [hi] at h
    cases h
  · exact h j hj

theorem isCtrl_edit (p : MsgPool) (i : MsgSlot) {f : MsgEx → MsgEx}
    (hf : ∀ m, (f m).id.mdlId = m.id.mdlId) : (p.edit i f).isCtrl = p.isCtrl := by
  funext j
  rcases eq_or_ne j i with rfl | hne
  · simp [isCtrl, MsgPool.edit, MsgPool.set, hf]
  · simp [isCtrl, MsgPool.edit, MsgPool.set, Function.update_of_ne hne]

/-- `push_back_wait_msg` keeps the order if the message is not one of the controller, or if there
are only messages of the controller. -/
theorem WaitOrdered.pushBackWaitMsg (h : p.WaitOrdered) (hlatest : p.Latest i)
    (hclass : p.isCtrl i = false ∨ ∀ j ∈ p.waitQ.queue, p.isCtrl j = true) :
    (p.pushBackWaitMsg i).WaitOrdered := by
  have hctrl : (p.pushBackWaitMsg i).isCtrl = p.isCtrl := isCtrl_edit p i fun _ => rfl
  refine ⟨?_, ?_⟩
  · rw [hctrl]
    exact h.ctrlFirst.snoc hclass
  · rw [hctrl]
    exact pairwise_snoc h.fifo fun j hj _ hi _ => hlatest.lt hj hi

/-- `insert_msg_by_priority` keeps the order. -/
theorem WaitOrdered.insertMsgByPriority (h : p.WaitOrdered) (hlatest : p.Latest i) :
    (p.insertMsgByPriority i).WaitOrdered := by
  have hctrl : (p.insertMsgByPriority i).isCtrl = p.isCtrl := isCtrl_edit p i fun _ => rfl
  refine ⟨?_, ?_⟩
  · rw [hctrl]
    exact h.ctrlFirst.insert
  · rw [hctrl]
    refine pairwise_insert h.fifo (fun j hj _ hi _ => ?_) fun j hj _ _ hclass => ?_
    · exact hlatest.lt ((List.takeWhile_prefix _).mem hj) hi
    · -- the messages behind it are of the other class
      obtain ⟨hi, hj⟩ := h.ctrlFirst.of_mem_dropWhile_insert hj
      rw [hi, hj] at hclass
      cases hclass

/-! ### Re-queueing the pending messages -/

/-- A controller message that `clear_pending_msg` does not recognise. -/
def mistaken (p : MsgPool) (i : MsgSlot) : Bool :=
  p.isCtrl i && !isDisprCtrl (p.pool i).id.evtId

/-- Whether the pending messages `l` can be put back: none of them is mistaken while there are
messages of other modules, in the wait queue or before it. -/
def requeueOk (p : MsgPool) : Bool → List MsgSlot → Bool
  | _, [] => true
  | others, i :: l => !(p.mistaken i && others) && p.requeueOk (others || !p.isCtrl i) l

/-- There are messages of other modules in the wait queue. -/
def othersWait (p : MsgPool) : Bool := p.waitQ.queue.any fun i => !p.isCtrl i

theorem requeueOk_congr (hctrl : p'.isCtrl = p.isCtrl)
    (hevt : ∀ j, (p'.pool j).id.evtId = (p.pool j).id.evtId) (l : List MsgSlot) (others : Bool) :
    p'.requeueOk others l = p.requeueOk others l := by
  induction l generalizing others with
  | nil => rfl
  | cons j l ih =>
    have hmist : p'.mistaken j = p.mistaken j := by simp only [mistaken, hctrl, hevt]
    rw [requeueOk, requeueOk, ih, hctrl, hmist]

theorem WaitOrdered.requeuePending (h : p.WaitOrdered) (hpended : p.everPended i = true)
    (hok : (p.mistaken i && p.othersWait) = false) : (p.requeuePending i).WaitOrdered := by
  unfold MsgPool.requeuePending
  split
  next => exact h.insertMsgByPriority (Or.inl hpended)
  next hevt =>
    refine h.pushBackWaitMsg (Or.inl hpended) ?_
    rw [Bool.and_eq_false_iff] at hok
    rcases hok with hmist | hothers
    · left
      simpa [mistaken, hevt] using hmist
    · right
      simpa [othersWait] using hothers

theorem requeuePending_isCtrl (p : MsgPool) (i : MsgSlot) :
    (p.requeuePending i).isCtrl = p.isCtrl := by
  unfold MsgPool.requeuePending
  split
  · exact isCtrl_edit p i fun _ => rfl
  · exact isCtrl_edit p i fun _ => rfl

theorem requeuePending_evtId (p : MsgPool) (i j : MsgSlot) :
    ((p.requeuePending i).pool j).id.evtId = (p.pool j).id.evtId := by
  have hedit : ((p.edit i MsgEx.queued).pool j).id.evtId = (p.pool j).id.evtId := by
    rcases eq_or_ne j i with rfl | hne
    · simp [MsgPool.edit, MsgPool.set, MsgEx.queued]
    · simp [MsgPool.edit, MsgPool.set, Function.update_of_ne hne]
  unfold MsgPool.requeuePending
  split
  · exact hedit
  · exact hedit

theorem requeuePending_waitQ (p : MsgPool) (i : MsgSlot) :
    (p.requeuePending i).waitQ.queue.Perm (i :: p.waitQ.queue) := by
  unfold MsgPool.requeuePending
  split
  · exact PhlQueue.insert_perm _ _ i
  · exact List.perm_append_singleton i p.waitQ.queue

theorem requeuePending_book (p : MsgPool) (i : MsgSlot) :
    (p.requeuePending i).stamp = p.stamp ∧ (p.requeuePending i).clock = p.clock ∧
      (p.requeuePending i).everPended = p.everPended ∧ (p.requeuePending i).pendQ = p.pendQ := by
  unfold MsgPool.requeuePending
  split <;> exact ⟨rfl, rfl, rfl, rfl⟩

/-- After a re-queueing there are messages of other modules if there were, or if it was one. -/
theorem othersWait_requeuePending (p : MsgPool) (i : MsgSlot) :
    (p.requeuePending i).othersWait = (p.othersWait || !p.isCtrl i) := by
  unfold othersWait
  rw [requeuePending_isCtrl, Bool.eq_iff_iff, List.any_eq_true, Bool.or_eq_true, List.any_eq_true]
  simp only [(requeuePending_waitQ p i).mem_iff, List.mem_cons, exists_eq_or_imp]
  exact or_comm

/-- The invariant of the operations on the queue. -/
structure QueueInv (p : MsgPool) : Prop where
  inv : p.Inv
  ordered : p.WaitOrdered
  stamps : ∀ i, i ∉ p.idleQ.queue → p.stamp i < p.clock
  pended : ∀ i, i ∈ p.pendQ.queue → p.everPended i = true

theorem QueueInv.stamp_lt (h : p.QueueInv) (hi : i ∈ p.waitQ.queue) : p.stamp i < p.clock :=
  h.stamps i (h.inv.parted.sep_b hi).1

theorem requeuePending_idleQ (p : MsgPool) (i : MsgSlot) :
    (p.requeuePending i).idleQ = p.idleQ := by
  unfold MsgPool.requeuePending
  split <;> rfl

theorem QueueInv.requeue (h : p.QueueInv) {q : PhlQueue MsgSlot}
    (hpop : pqPop p.pendQ = some (i, q)) (hok : (p.mistaken i && p.othersWait) = false) :
    QueueInv (requeuePending { p with pendQ := q } i) := by
  obtain ⟨hqueue, -⟩ := PhlQueue.pop_spec hpop
  obtain ⟨hstamp, hclock, hpended, hpend⟩ := requeuePending_book { p with pendQ := q } i
  refine ⟨(h.inv.popPending hpop).requeuePending, ?_, fun j hj => ?_, fun j hj => ?_⟩
  · have hordered : WaitOrdered { p with pendQ := q } := h.ordered.congr rfl
      (fun _ _ => rfl) (fun _ _ => rfl) fun _ _ => rfl
    exact hordered.requeuePending (h.pended i (by simp [hqueue])) hok
  · rw [requeuePending_idleQ] at hj
    rw [hstamp, hclock]
    exact h.stamps j hj
  · rw [hpend] at hj
    rw [hpended]
    exact h.pended j (by simp [hqueue, show j ∈ q.queue from hj])

/-- The loop of `clear_pending_msg`, by induction on its length. -/
theorem QueueInv.drainPending (h : p.QueueInv) (n : ℕ)
    (hok : p.requeueOk p.othersWait p.pendQ.queue = true) :
    QueueInv (drainPending requeuePending n p) := by
  induction n generalizing p with
  | zero => exact h
  | succ n ih =>
    unfold MsgPool.drainPending
    split
    next => exact h
    next j q hpop =>
      obtain ⟨hqueue, -⟩ := PhlQueue.pop_spec hpop
      rw [hqueue, requeueOk, Bool.and_eq_true, Bool.not_eq_true'] at hok
      refine ih (h.requeue hpop hok.1) ?_
      -- the rest of the queue is judged as before
      rw [(requeuePending_book _ j).2.2.2, othersWait_requeuePending]
      have hsame := requeueOk_congr (p := p) (requeuePending_isCtrl { p with pendQ := q } j)
        (requeuePending_evtId _ j) q.queue (p.othersWait || !p.isCtrl j)
      exact hsame.trans hok.2

end MsgPool

/-! ## Sequences of operations -/

/-- The operations on the wait queue. -/
inductive QueueOp where
  /-- `dispr_send_msg`. -/
  | send (id : MsgId) (attr : Option MsgAttr)
  /-- The thread takes a message from the wait queue. -/
  | pop
  /-- A module pends the message in hand. -/
  | pend
  /-- `push_back_idle_msg` with the message in hand. -/
  | recycle
  /-- `clear_pending_msg`, with `DISPR_CLR_PEND_MSG` set. -/
  | clearPending
  /-- The dispatcher changes in any other way. -/
  | rest (w : CmdDispatcher)

/-- What `feed_mdl_msg` does to a message that a module pends. -/
def MsgEx.pended (m : MsgEx) : MsgEx := { m with status := { m.status with pending := true } }

/-- A message in hand is pended, and `msg_dispatch` reschedules it. -/
def pendMsg (w : CmdDispatcher) (i : MsgSlot) : CmdDispatcher :=
  reschedule (w.onMsgs fun p => p.edit i MsgEx.pended) i

/-- One operation. -/
def queueStep (w : CmdDispatcher) : QueueOp → Option CmdDispatcher
  | .send id attr => some (w.disprSendMsg id attr).1
  | .pop =>
    if w.msgs.hand = none then w.msgs.popFrontWaitMsg.map fun x => { w with msgs := x.2 } else none
  | .pend => w.msgs.hand.map fun i => pendMsg w i
  | .recycle => w.msgs.hand.map fun i => recycleMsg w i
  | .clearPending => some (clearPendingMsg w.disprClrPendingMsg)
  | .rest w' => some { w' with msgs := w.msgs }

/-- A controller message with an event id of 10 or more is re-queued only if there are no messages
of other modules, in the wait queue or before it in the pending queue. -/
def clearOk (w : CmdDispatcher) : QueueOp → Bool
  | .clearPending => w.msgs.requeueOk w.msgs.othersWait w.msgs.pendQ.queue
  | _ => true

section Steps

variable {w w' : CmdDispatcher} {i : MsgSlot}

/-- The order when something happens to messages outside of the wait queue. -/
theorem waitOrdered_of_outside {p p' : MsgPool} (h : p.WaitOrdered) (hi : i ∉ p.waitQ.queue)
    (hwaitQ : p'.waitQ = p.waitQ) (hpool : ∀ j, j ≠ i → p'.pool j = p.pool j)
    (hpended : ∀ j, j ≠ i → p'.everPended j = p.everPended j)
    (hstamp : ∀ j, j ≠ i → p'.stamp j = p.stamp j) : p'.WaitOrdered := by
  have hne : ∀ j ∈ p.waitQ.queue, j ≠ i := fun j hj heq => hi (heq ▸ hj)
  refine h.congr hwaitQ (fun j hj => ?_) (fun j hj => hpended j (hne j hj)) fun j hj =>
    hstamp j (hne j hj)
  unfold MsgPool.isCtrl
  rw [hpool j (hne j hj)]

theorem queueInv_refuseMsg (h : w.msgs.QueueInv) {p : MsgPool} {m : MsgEx}
    (hpop : w.msgs.popFrontIdleMsg = some (i, p)) : (w.refuseMsg p i m).msgs.QueueInv := by
  have hinv := inv_refuseMsg (w := w) (h.inv.popFrontIdleMsg hpop) m
  obtain ⟨q, hq, rfl⟩ := MsgPool.popFrontIdleMsg_spec hpop
  have hi : i ∉ w.msgs.waitQ.queue := (h.inv.parted.sep_a (by simp [hq])).1
  have hidle : ∀ j, j ∉ (pqPush q i).queue → j ∉ w.msgs.idleQ.queue := by
    intro j hj hmem
    rw [hq] at hmem
    rcases List.mem_cons.mp hmem with rfl | hmem
    · exact hj (by simp [pqPush])
    · exact hj (by simp [pqPush, hmem])
  obtain ⟨hwaitQ, hpendQ, hidleQ, hstamp, hclock, hpended, -, hpool⟩ :=
    refuseMsg_frame w ({ w.msgs with idleQ := q }.set i {}) i m
  refine ⟨hinv, ?_, fun j hj => ?_, ?_⟩
  · refine waitOrdered_of_outside h.ordered hi hwaitQ (fun j hj => ?_)
      (fun j _ => congrFun hpended j) fun j _ => congrFun hstamp j
    rw [hpool j hj]
    exact Function.update_of_ne hj _ _
  · rw [hidleQ] at hj
    rw [hstamp, hclock]
    exact Nat.lt_succ_of_lt (h.stamps j (hidle j hj))
  · rw [hpendQ, hpended]
    exact h.pended

theorem queueInv_queueMsg (h : w.msgs.QueueInv) {p : MsgPool} {m : MsgEx}
    (hpop : w.msgs.popFrontIdleMsg = some (i, p)) (forAbort : Bool) :
    (w.queueMsg p i m forAbort).msgs.QueueInv := by
  have hinv := inv_queueMsg (w := w) (h.inv.popFrontIdleMsg hpop) m forAbort
  obtain ⟨hnot, -, hpend, -⟩ := (h.inv.popFrontIdleMsg hpop).not_mem
  obtain ⟨q, hq, rfl⟩ := MsgPool.popFrontIdleMsg_spec hpop
  have hmem : i ∈ w.msgs.idleQ.queue := by simp [hq]
  have hi : i ∉ w.msgs.waitQ.queue := (h.inv.parted.sep_a hmem).1
  refine ⟨hinv, ?_, fun j hj => ?_, fun j hj => ?_⟩
  · -- the slot is filled and numbered, and then put into the queue
    unfold queueMsg
    simp only
    generalize hp' : MsgPool.record _ _ = p'
    have hordered : p'.WaitOrdered := by
      subst hp'
      refine waitOrdered_of_outside h.ordered hi rfl (fun j hj => ?_) (fun j hj => ?_) fun j hj =>
        ?_
      · simp [MsgPool.record, MsgPool.set, Function.update_of_ne hj]
      · simp [MsgPool.record, MsgPool.set, Function.update_of_ne hj]
      · simp [MsgPool.record, MsgPool.set, Function.update_of_ne hj]
    have hlatest : p'.Latest i := by
      subst hp'
      refine Or.inr fun j hj => ?_
      have hji : j ≠ i := fun heq => hi (heq ▸ hj)
      simpa [MsgPool.record, MsgPool.set, Function.update_of_ne hji] using h.stamp_lt hj
    have hclass : p'.isCtrl i = isDisprCtrl m.id.mdlId := by
      subst hp'
      simp [MsgPool.isCtrl, MsgPool.record, MsgPool.set]
    split
    next => exact hordered.insertMsgByPriority hlatest
    next hother =>
      refine hordered.pushBackWaitMsg hlatest (Or.inl ?_)
      rw [hclass]
      simpa using hother
  · rw [queueMsg_msgs] at hj ⊢
    rcases eq_or_ne j i with rfl | hji
    · simp [MsgPool.set]
    · have hlt := h.stamps j fun hj' => hj (by simpa [hq, hji, MsgPool.set] using hj')
      simpa [MsgPool.set, Function.update_of_ne hji] using Nat.lt_succ_of_lt hlt
  · rw [queueMsg_msgs] at hj ⊢
    have hji : j ≠ i := fun heq => hpend (heq ▸ hj)
    simpa [MsgPool.set, Function.update_of_ne hji] using h.pended j hj

theorem queueInv_send (h : w.msgs.QueueInv) (id : MsgId) (attr : Option MsgAttr) :
    (w.disprSendMsg id attr).1.msgs.QueueInv := by
  have hsent := disprSendMsg_sent w id attr
  generalize w.disprSendMsg id attr = r at hsent
  cases hsent with
  | rejected st hst => exact h
  | refused hstarted hattr hpop howner hlast habort => exact queueInv_refuseMsg h hpop
  | queued hstarted hattr hpop hmay habort => exact queueInv_queueMsg h hpop _

theorem queueInv_pop (h : w.msgs.QueueInv) (hhand : w.msgs.hand = none) {p : MsgPool}
    (hpop : w.msgs.popFrontWaitMsg = some (i, p)) : p.QueueInv := by
  have hinv := h.inv.popFrontWaitMsg hhand hpop
  obtain ⟨⟨j, q⟩, hq, hx⟩ := Option.map_eq_some_iff.mp hpop
  obtain ⟨rfl, rfl⟩ := Prod.mk.inj hx
  obtain ⟨hqueue, -⟩ := PhlQueue.pop_spec hq
  refine ⟨hinv, ⟨?_, ?_⟩, h.stamps, h.pended⟩
  · have hctrl := h.ordered.ctrlFirst
    rw [Stratified, hqueue, List.pairwise_cons] at hctrl
    rw [MsgPool.isCtrl_edit _ _ (f := MsgEx.popped) fun _ => rfl]
    exact hctrl.2
  · have hfifo := h.ordered.fifo
    rw [hqueue, List.pairwise_cons] at hfifo
    rw [MsgPool.isCtrl_edit _ _ (f := MsgEx.popped) fun _ => rfl]
    exact hfifo.2

theorem reschedule_of_pending (h : (w.msgs.pool i).status.pending = true) :
    (reschedule w i).msgs = { w.msgs.pushBackPendingMsg i with hand := none } := by
  simp only [reschedule, onMsgs, h, if_true]

theorem queueInv_pend (h : w.msgs.QueueInv) (hhand : w.msgs.hand = some i) :
    (pendMsg w i).msgs.QueueInv := by
  have hset : (w.msgs.edit i MsgEx.pended).Inv :=
    h.inv.set (h.inv.not_idle_of_hand hhand) rfl rfl
  have hinv : (pendMsg w i).msgs.Inv := inv_reschedule hset hhand
  have hi := (h.inv.parted.sep_d (x := i) (by simp [hhand])).2.1
  have hmsgs : (pendMsg w i).msgs =
      { (w.msgs.edit i MsgEx.pended).pushBackPendingMsg i with hand := none } :=
    reschedule_of_pending (by simp [onMsgs, MsgPool.edit, MsgPool.set, MsgEx.pended])
  rw [hmsgs] at hinv ⊢
  refine ⟨hinv, ?_, h.stamps, fun j hj => ?_⟩
  · refine waitOrdered_of_outside h.ordered hi rfl (fun j hj => ?_) (fun j hj => ?_) fun _ _ => rfl
    · simp [MsgPool.pushBackPendingMsg, MsgPool.edit, MsgPool.set, Function.update_of_ne hj]
    · simp [MsgPool.pushBackPendingMsg, MsgPool.edit, MsgPool.set, Function.update_of_ne hj]
  · rcases eq_or_ne j i with rfl | hji
    · simp [MsgPool.pushBackPendingMsg]
    · have hj' : j ∈ w.msgs.pendQ.queue := by
        simpa [MsgPool.pushBackPendingMsg, MsgPool.edit, MsgPool.set, pqPush, hji] using hj
      simpa [MsgPool.pushBackPendingMsg, MsgPool.edit, MsgPool.set, Function.update_of_ne hji]
        using h.pended j hj'

theorem queueInv_recycle (h : w.msgs.QueueInv) (hhand : w.msgs.hand = some i) :
    (recycleMsg w i).msgs.QueueInv := by
  have hinv := inv_recycleMsg h.inv hhand
  have hi := (h.inv.parted.sep_d (x := i) (by simp [hhand])).2.1
  rw [recycleMsg_msgs] at hinv ⊢
  refine ⟨hinv, ?_, fun j hj => h.stamps j fun hmem => hj ?_, h.pended⟩
  · refine waitOrdered_of_outside h.ordered hi rfl (fun j hj => ?_) (fun _ _ => rfl) fun _ _ => rfl
    simp [MsgPool.record, MsgPool.putIdle, Function.update_of_ne hj]
  · exact List.mem_append_left _ hmem

theorem queueInv_clearPending (h : w.msgs.QueueInv)
    (hok : w.msgs.requeueOk w.msgs.othersWait w.msgs.pendQ.queue = true) :
    (clearPendingMsg w.disprClrPendingMsg).msgs.QueueInv :=
  h.drainPending _ hok

/-- Every operation keeps the order of the wait queue. -/
theorem queueStep_inv {e : QueueOp} (h : w.msgs.QueueInv) (hok : clearOk w e = true)
    (hstep : queueStep w e = some w') : w'.msgs.QueueInv := by
  cases e with
  | send id attr =>
    obtain rfl := Option.some.inj hstep
    exact queueInv_send h id attr
  | pop =>
    simp only [queueStep] at hstep
    split at hstep
    next hhand =>
      obtain ⟨⟨i, p⟩, hpop, rfl⟩ := Option.map_eq_some_iff.mp hstep
      exact queueInv_pop h hhand hpop
    next => cases hstep
  | pend =>
    obtain ⟨i, hhand, rfl⟩ := Option.map_eq_some_iff.mp hstep
    exact queueInv_pend h hhand
  | recycle =>
    obtain ⟨i, hhand, rfl⟩ := Option.map_eq_some_iff.mp hstep
    exact queueInv_recycle h hhand
  | clearPending =>
    obtain rfl := Option.some.inj hstep
    exact queueInv_clearPending h hok
  | rest w' =>
    obtain rfl := Option.some.inj hstep
    exact h

theorem queueInv_start (modules : Modules) (ctrlPresent : Bool) :
    (disprStart modules ctrlPresent).msgs.QueueInv where
  inv := MsgPool.inv_init
  ordered := ⟨List.Pairwise.nil, List.Pairwise.nil⟩
  stamps i hi := absurd (MsgPool.idle_init i) hi
  pended := by simp [disprStart, initDisprMsgPool, pqInit]

end Steps

/-- After every sequence of operations in which `clear_pending_msg` mistakes no controller message
that has to overtake another one, the controller messages are first in the wait queue, and the
messages that were never pended are in the order in which they were sent, within their class. -/
theorem run_wait_ordered (modules : Modules) (ctrlPresent : Bool) (es : List QueueOp)
    (w : CmdDispatcher)
    (hes : Guarded queueStep (fun w e => clearOk w e = true) (disprStart modules ctrlPresent) es)
    (h : run queueStep (disprStart modules ctrlPresent) es = some w) : w.msgs.WaitOrdered := by
  have hinv : w.msgs.QueueInv :=
    run_preserves (fun w => w.msgs.QueueInv)
      (fun _ _ _ hs hok hstep => queueStep_inv hs hok hstep) (queueInv_start modules ctrlPresent)
      hes h
  exact hinv.ordered

/-- The modules of a dispatcher with power management only. -/
def powerModules : Modules where
  bitmap := {41}
  basemap := {41}
  moduleQ p := if p = .mandatory then [⟨41, true⟩] else []

/-- A message of module 41 is sent, and then one of the controller, which goes before it. -/
def ctrlSentRun : List QueueOp :=
  [.send { mdlId := 41, evtId := 1 } none, .send { mdlId := 1, evtId := 56 } none]

theorem run_wait_ordered_ctrl :
    ∃ w, run queueStep (disprStart powerModules true) ctrlSentRun = some w ∧
      w.msgs.waitQ.queue = [1, 0] ∧ w.msgs.WaitOrdered :=
  ⟨_, rfl, by decide +kernel,
    run_wait_ordered powerModules true ctrlSentRun _ (by decide +kernel) rfl⟩

/-- The controller message `MSG_EVT_DEV_CANNOT_IO` is pended, a message of module 41 is sent, and
the pending messages are put back. -/
def ctrlPendedRun : List QueueOp :=
  [.send { mdlId := 1, evtId := 56 } none, .pop, .pend, .send { mdlId := 41, evtId := 1 } none,
    .clearPending]

/-- The message of module 41 is before that of the controller. -/
theorem ctrl_message_overtaken :
    ∃ w, run queueStep (disprStart powerModules true) ctrlPendedRun = some w ∧
      w.msgs.waitQ.queue = [1, 0] ∧ w.msgs.isCtrl 1 = false ∧ w.msgs.isCtrl 0 = true :=
  ⟨_, rfl, by decide +kernel, by decide +kernel, by decide +kernel⟩

end Rtl88x2cu.Dispatcher
