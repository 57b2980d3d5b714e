import Rtl88x2cu.Dispatcher.Steps

/-!
# Command dispatcher: the thread takes only its steps

Every segment of the dispatcher thread changes the state only by `BkStep`s, whatever other threads
and the callbacks do during its calls. This is a walk through the programs of the thread, with
what the thread has in hand at each point.

From it comes `dispr_invariant`: what the steps of the thread and the calls of the API keep holds
in every state of every run of the dispatcher.
-/

namespace Rtl88x2cu.Dispatcher

open CmdDispatcher

/-! ## Triples of the thread -/

/-- The thread calls out with a request in hand only to abort it. -/
def CallOk (w : CmdDispatcher) (q : BkCall) : Prop := ∀ j, w.reqs.hand = some j → q = .abort j

/-- A triple of the dispatcher thread. The request pool is in order at all times. -/
def BkTriple {α : Type} (P : CmdDispatcher → Prop) (p : BkProg α)
    (Q : CmdDispatcher → α → Prop) : Prop :=
  Triple BkRun Rely CallOk (fun w => w.reqs.Inv ∧ P w) p (fun w a => w.reqs.Inv ∧ Q w a)

section Rules

variable {α β : Type} {P P' : CmdDispatcher → Prop} {Q Q' : CmdDispatcher → α → Prop}
  {R : CmdDispatcher → β → Prop}

theorem BkRun.refl (w : CmdDispatcher) : BkRun w w := Relation.ReflTransGen.refl

theorem BkRun.trans {w w' w'' : CmdDispatcher} (h : BkRun w w') (h' : BkRun w' w'') : BkRun w w'' :=
  Relation.ReflTransGen.trans h h'

theorem BkStep.run {w w' : CmdDispatcher} (h : BkStep w w') : BkRun w w' :=
  Relation.ReflTransGen.single h

theorem BkTriple.pure {a : α} (h : ∀ w, P w → Q w a) : BkTriple P (Pure.pure a : BkProg α) Q :=
  Triple.pure BkRun.refl fun w hw => ⟨hw.1, h w hw.2⟩

theorem BkTriple.bind {p : BkProg α} {f : α → BkProg β} (hp : BkTriple P p Q)
    (hf : ∀ a, BkTriple (fun w => Q w a) (f a) R) : BkTriple P (p >>= f) R :=
  Triple.bind (T := BkRun) (fun _ _ _ h h' => h.trans h') hp hf

theorem BkTriple.mono {p : BkProg α} (h : BkTriple P p Q) (hP : ∀ w, P' w → P w)
    (hQ : ∀ w a, Q w a → Q' w a) : BkTriple P' p Q' :=
  Triple.mono h (fun w hw => ⟨hw.1, hP w hw.2⟩) fun w a hw => ⟨hw.1, hQ w a hw.2⟩

/-- Reading the state. -/
theorem BkTriple.get {f : CmdDispatcher → BkProg α}
    (h : ∀ w, w.reqs.Inv → P w → BkTriple (fun w' => w' = w) (f w) Q) :
    BkTriple P (Prog.get >>= f) Q :=
  fun w hw => h w hw.1 hw.2 w ⟨hw.1, rfl⟩

/-- Changing the state by steps of the thread. -/
theorem BkTriple.modify {f : CmdDispatcher → CmdDispatcher} {Q : CmdDispatcher → Unit → Prop}
    (h : ∀ w, w.reqs.Inv → P w → BkRun w (f w) ∧ Q (f w) ()) :
    BkTriple P (Prog.modify f : BkProg Unit) Q :=
  Triple.modify fun w hw => ⟨(h w hw.1 hw.2).1, (h w hw.1 hw.2).1.reqs_inv hw.1, (h w hw.1 hw.2).2⟩

/-- Calling out. -/
theorem BkTriple.call {Q : CmdDispatcher → MdlRet → Prop} (q : BkCall)
    (hC : ∀ w, P w → CallOk w q) (h : ∀ w w' r, P w → Rely w w' → Q w' r) :
    BkTriple P (Prog.call q) Q :=
  Triple.call BkRun.refl q (fun w hw => hC w hw.2)
    fun w w' r hw he => ⟨he.inv hw.1, h w w' r hw.2 he⟩

/-- The precondition is a fact about one state. -/
theorem BkTriple.of_eq {w : CmdDispatcher} {p : BkProg α} (h : P w → BkTriple P p Q) (hw : P w) :
    BkTriple (fun w' => w' = w) p Q :=
  (h hw).mono (fun _ h' => h' ▸ hw) fun _ _ h' => h'

end Rules

/-! ## The dispatch of a message -/

/-- Programs that make only benign changes to a message. -/
def BenignProg {α : Type} (p : MsgProg α) : Prop :=
  Triple (fun v v' : View => v.msg.Benign v'.msg) (fun _ _ => True) (fun _ _ => True)
    (fun _ => True) p (fun _ _ => True)

section Benign

variable {α β : Type}

theorem BenignProg.pure (a : α) : BenignProg (Pure.pure a : MsgProg α) :=
  Triple.pure (fun v => MsgEx.Benign.refl v.msg) fun _ _ => trivial

theorem BenignProg.bind {p : MsgProg α} {f : α → MsgProg β} (hp : BenignProg p)
    (hf : ∀ a, BenignProg (f a)) : BenignProg (p >>= f) :=
  Triple.bind (T := fun v v' : View => v.msg.Benign v'.msg) (fun _ _ _ h h' => h.trans h') hp hf

theorem BenignProg.get : BenignProg Prog.get :=
  (Triple.get fun v => MsgEx.Benign.refl v.msg).mono (fun _ h => h) fun _ _ _ => trivial

theorem BenignProg.call (q : MsgCall) : BenignProg (Prog.call q) :=
  Triple.call (fun v => MsgEx.Benign.refl v.msg) q (fun _ _ => trivial) fun _ _ _ _ _ => trivial

theorem BenignProg.editMsg {f : MsgEx → MsgEx} (h : ∀ m : MsgEx, m.Benign (f m)) :
    BenignProg (editMsg f) :=
  Triple.modify fun v _ => ⟨h v.msg, trivial⟩

theorem BenignProg.ite {c : Prop} [Decidable c] {p q : MsgProg α} (hp : BenignProg p)
    (hq : BenignProg q) : BenignProg (if c then p else q) := by
  split
  · exact hp
  · exact hq

theorem curReqHdl_benign : BenignProg curReqHdl :=
  .bind .get fun _ => .ite (.bind (.call _) fun _ => .pure ()) (.pure ())

theorem notifySource_benign : BenignProg notifySource := by
  refine .bind .get fun v => ?_
  cases v.msg.module with
  | none => exact .pure ()
  | some mdl => exact .ite (.bind (.call _) fun _ => .pure ()) (.pure ())

theorem notifyMsgFail_benign (ret : MdlRet) : BenignProg (notifyMsgFail ret) := by
  refine .bind (.editMsg fun _ => ⟨rfl, rfl, rfl, rfl, rfl, rfl, rfl⟩) fun _ => ?_
  exact .bind notifySource_benign fun _ => .bind .get fun _ => .ite curReqHdl_benign (.pure ())

theorem clrBitmapBit_benign (m : MsgEx) (mdl : ℕ) : m.Benign (clrBitmapBit m mdl) := by
  unfold clrBitmapBit
  split <;> exact ⟨rfl, rfl, rfl, rfl, rfl, rfl, rfl⟩

theorem handleRet_benign (mdl : ℕ) (ret : MdlRet) : BenignProg (handleRet mdl ret) := by
  cases ret with
  | fail => exact notifyMsgFail_benign _
  | cannotIo => exact notifyMsgFail_benign _
  | pending =>
    exact BenignProg.editMsg (f := fun m => { m with status := { m.status with pending := true } })
      fun _ => ⟨rfl, rfl, rfl, rfl, rfl, rfl, rfl⟩
  | success => exact .editMsg fun m => clrBitmapBit_benign m mdl
  | ignore => exact .editMsg fun m => clrBitmapBit_benign m mdl

theorem feedMdlMsg_benign (mdl : ℕ) : BenignProg (feedMdlMsg mdl) :=
  .bind .get fun _ => .bind (.call _) fun ret => .bind (handleRet_benign mdl ret) fun _ => .pure ret

theorem notifyDisprController_benign : BenignProg notifyDisprController :=
  .bind .get fun _ => .ite (.bind (feedMdlMsg_benign _) fun _ => .pure ()) (.pure ())

theorem feedQueue_benign (pre : Bool) (l : List BkModule) : BenignProg (feedQueue pre l) := by
  induction l with
  | nil => exact .pure false
  | cons mdl l ih =>
    exact .bind .get fun _ => .ite (.bind (feedMdlMsg_benign _) fun _ => .ite (.pure true) ih) ih

theorem feedOwner_benign (pre : Bool) (p : Priority) : BenignProg (feedOwner pre p) := by
  refine .bind .get fun v => ?_
  cases v.msg.owner with
  | none => exact .pure false
  | some owner => exact .ite (.bind (feedMdlMsg_benign _) fun _ => .pure _) (.pure false)

theorem feedPriorities_benign (pre : Bool) (ps : List Priority) :
    BenignProg (feedPriorities pre ps) := by
  induction ps with
  | nil => exact .pure ()
  | cons p ps ih =>
    have hpriority : BenignProg (feedPriority pre p) :=
      .bind (feedOwner_benign pre p) fun _ =>
        .ite (.pure true) (.bind .get fun _ => feedQueue_benign pre _)
    exact .bind hpriority fun _ => .ite (.pure ()) ih

theorem redirectChk_benign {next : MsgProg Outcome} (h : BenignProg next) :
    BenignProg (redirectChk next) := by
  refine .bind .get fun v => ?_
  cases v.msg.status.redirect with
  | none => exact h
  | some out => exact .pure out

theorem getMsgBitmap_benign : BenignProg getMsgBitmap :=
  .bind .get fun _ => .bind (.editMsg fun _ => ⟨rfl, rfl, rfl, rfl, rfl, rfl, rfl⟩) fun _ => .pure _

theorem invalidBitmap_benign : BenignProg invalidBitmap :=
  .bind (.editMsg fun _ => ⟨rfl, rfl, rfl, rfl, rfl, rfl, rfl⟩) fun _ => .pure _

theorem dispatchPost_benign : BenignProg dispatchPost := by
  refine .bind (.editMsg fun _ => ⟨rfl, rfl, rfl, rfl, rfl, rfl, rfl⟩) fun _ => ?_
  refine .bind getMsgBitmap_benign fun pre => ?_
  refine .bind (.bind .get fun _ => .ite (feedPriorities_benign _ _) (.pure ())) fun _ => ?_
  exact redirectChk_benign (.bind .get fun _ =>
    .ite (.bind curReqHdl_benign fun _ => .pure _) invalidBitmap_benign)

/-- `msg_dispatch` makes only benign changes. -/
theorem msgDispatch_benign : BenignProg msgDispatch := by
  refine .bind getMsgBitmap_benign fun pre => redirectChk_benign ?_
  refine .bind notifyDisprController_benign fun _ => redirectChk_benign ?_
  refine .bind (.bind .get fun _ => .ite (feedPriorities_benign _ _) (.pure ())) fun _ => ?_
  exact redirectChk_benign (.bind .get fun _ => .ite dispatchPost_benign invalidBitmap_benign)

end Benign

/-! ## What the thread has in hand -/

/-- The message, the request and the token operation the thread has in hand. -/
structure At (mh : Option MsgSlot) (rh : Option ReqSlot) (hd : Option OpNode)
    (w : CmdDispatcher) : Prop where
  msgHand : w.msgs.hand = mh
  reqHand : w.reqs.hand = rh
  handling : w.ops.handling = hd

/-- The thread has nothing in hand. -/
abbrev Free : CmdDispatcher → Prop := At none none none

section Walk

variable {mh : Option MsgSlot} {rh : Option ReqSlot} {hd : Option OpNode} {w w' w'' : CmdDispatcher}
  {i : MsgSlot} {j : ReqSlot}

/-- Without a request in hand every call is allowed. -/
theorem At.callOk (h : At mh none hd w) (q : BkCall) : CallOk w q := by
  intro j hj
  rw [h.reqHand] at hj
  cases hj

theorem At.rely (h : At mh rh hd w) (hr : Rely w w') : At mh rh hd w' :=
  ⟨hr.msgHand.trans h.msgHand, hr.reqHand.trans h.reqHand, hr.handling.trans h.handling⟩

/-- Changes to messages that the thread does not have in hand. -/
structure Quiet (w w' : CmdDispatcher) : Prop where
  reqs : w'.reqs = w.reqs
  ops : w'.ops = w.ops
  msgHand : w'.msgs.hand = w.msgs.hand
  notified : w'.msgs.notified = w.msgs.notified
  waitAbort : w'.status.waitAbortMsgDone = w.status.waitAbortMsgDone

theorem Quiet.refl (w : CmdDispatcher) : Quiet w w := ⟨rfl, rfl, rfl, rfl, rfl⟩

theorem Quiet.trans (h : Quiet w w') (h' : Quiet w' w'') : Quiet w w'' :=
  ⟨h'.reqs.trans h.reqs, h'.ops.trans h.ops, h'.msgHand.trans h.msgHand,
    h'.notified.trans h.notified, h'.waitAbort.trans h.waitAbort⟩

theorem At.quiet (h : At mh rh hd w) (hq : Quiet w w') : At mh rh hd w' :=
  ⟨hq.msgHand.trans h.msgHand, (congrArg ReqPool.hand hq.reqs).trans h.reqHand,
    (congrArg OpQueue.handling hq.ops).trans h.handling⟩

/-! ## Pending messages -/

theorem requeuePending_hand (p : MsgPool) (i : MsgSlot) :
    (p.requeuePending i).hand = p.hand ∧ (p.requeuePending i).notified = p.notified := by
  unfold MsgPool.requeuePending
  split <;> exact ⟨rfl, rfl⟩

/-- A loop over the pending queue is a sequence of steps if its body is one. -/
theorem drainPending_run (body : MsgPool → MsgSlot → MsgPool)
    (hbody : ∀ p i, (body p i).hand = p.hand ∧ (body p i).notified = p.notified)
    (hstep : ∀ w i q, pqPop w.msgs.pendQ = some (i, q) →
      BkStep w (w.onMsgs fun p => body { p with pendQ := q } i)) (n : ℕ) (w : CmdDispatcher) :
    BkRun w (w.onMsgs (MsgPool.drainPending body n)) ∧
      Quiet w (w.onMsgs (MsgPool.drainPending body n)) := by
  induction n generalizing w with
  | zero => exact ⟨BkRun.refl w, Quiet.refl w⟩
  | succ n ih =>
    simp only [onMsgs, MsgPool.drainPending]
    cases hpop : pqPop w.msgs.pendQ with
    | none => exact ⟨BkRun.refl w, Quiet.refl w⟩
    | some x =>
      obtain ⟨i, q⟩ := x
      obtain ⟨hrun, hquiet⟩ := ih (w.onMsgs fun p => body { p with pendQ := q } i)
      obtain ⟨hhand, hnot⟩ := hbody { w.msgs with pendQ := q } i
      have hfirst : Quiet w (w.onMsgs fun p => body { p with pendQ := q } i) :=
        ⟨rfl, rfl, hhand, hnot, rfl⟩
      exact ⟨(hstep w i q hpop).run.trans hrun, hfirst.trans hquiet⟩

theorem clearPendingMsg_run (w : CmdDispatcher) :
    BkRun w (clearPendingMsg w) ∧ Quiet w (clearPendingMsg w) := by
  unfold clearPendingMsg
  split
  · obtain ⟨hrun, hquiet⟩ := drainPending_run _ requeuePending_hand
      (fun _ _ _ => BkStep.requeue) w.msgs.pendQ.queue.length
        (w.onStatus fun st => { st with clrPendMsg := false })
    have hflag : BkStep w (w.onStatus fun st => { st with clrPendMsg := false }) :=
      BkStep.flags false w.status.notifyIdle
    exact ⟨hflag.run.trans hrun, ⟨rfl, rfl, hquiet.msgHand, hquiet.notified, rfl⟩⟩
  · exact ⟨BkRun.refl w, Quiet.refl w⟩

theorem unpendAll_run (w : CmdDispatcher) :
    BkRun w (w.onMsgs MsgPool.unpendAll) ∧ Quiet w (w.onMsgs MsgPool.unpendAll) :=
  drainPending_run MsgPool.pushBackWaitMsg (fun _ _ => ⟨rfl, rfl⟩) (fun _ _ _ => BkStep.unpend) _ w

/-! ## Recycling a message -/

/-- The completion routine of the message has been called, or there is nothing to call. -/
def Notified (i : MsgSlot) (w : CmdDispatcher) : Prop :=
  w.msgs.notified = true ∨ (w.msgs.pool i).completion = none ∨
    (w.msgs.pool i).status.notifyComplete = false

theorem notifyCompletion_walk :
    BkTriple (fun w => At (some i) none hd w ∧ w.msgs.notified = false) (notifyCompletion i)
      (fun w _ => At (some i) none hd w ∧ Notified i w) := by
  refine .get fun w _ hw => ?_
  cases hc : (w.msgs.pool i).completion with
  | none =>
    refine .pure fun w' hw' => ?_
    subst hw'
    exact ⟨hw.1, Or.inr (Or.inl hc)⟩
  | some priv =>
    dsimp only
    split
    next hn =>
      refine .bind (Q := fun w _ => At (some i) none hd w ∧ w.msgs.notified = true)
        (.modify fun w' _ hw' => ?_) fun _ => ?_
      · subst hw'
        exact ⟨(BkStep.fire hw.1.msgHand hw.2 (by simp [hc]) hn).run, ⟨hw.1.1, hw.1.2, hw.1.3⟩, rfl⟩
      refine .get fun w₁ _ hw₁ => ?_
      refine .bind (Q := fun w _ => At (some i) none hd w ∧ w.msgs.notified = true)
        (.call _ (fun w₂ hw₂ => hw₂ ▸ hw₁.1.callOk _) fun w₂ w₃ _ hw₂ hr => ?_)
        fun _ => .modify fun w₂ _ hw₂ => ?_
      · subst hw₂
        exact ⟨hw₁.1.rely hr, hr.notified.trans hw₁.2⟩
      · exact ⟨(BkStep.clrNotify hw₂.1.msgHand hw₂.2).run, ⟨hw₂.1.1, hw₂.1.2, hw₂.1.3⟩,
          Or.inl hw₂.2⟩
    next hn =>
      refine .pure fun w' hw' => ?_
      subst hw'
      exact ⟨hw.1, Or.inr (Or.inr (by simpa using hn))⟩

theorem pushBackTokenOpInfo_frame (w : CmdDispatcher) (n : OpNode) (type : OpType) (data : ℕ) :
    (w.pushBackTokenOpInfo n type data).1.msgs = w.msgs ∧
      (w.pushBackTokenOpInfo n type data).1.reqs = w.reqs ∧
      (w.pushBackTokenOpInfo n type data).1.ops.handling = w.ops.handling := by
  unfold pushBackTokenOpInfo
  split <;> exact ⟨rfl, rfl, rfl⟩

theorem recycleMsg_at (h : At (some i) rh hd w) : At none rh hd (recycleMsg w i) := by
  unfold recycleMsg onAbortMsgComplete
  split
  · obtain ⟨-, hreqs, hops⟩ := pushBackTokenOpInfo_frame
      (w.onStatus fun st => { st with waitAbortMsgDone := false }) .renew .renewCmdReq 0xff
    exact ⟨rfl, (congrArg ReqPool.hand hreqs).trans h.reqHand, hops.trans h.handling⟩
  · exact ⟨rfl, h.reqHand, h.handling⟩

theorem pushBackIdleMsg_walk :
    BkTriple (fun w => At (some i) none hd w ∧ w.msgs.notified = false) (pushBackIdleMsg i)
      (fun w _ => At none none hd w) :=
  .bind notifyCompletion_walk fun _ => .modify fun _ _ hw =>
    ⟨(BkStep.recycle hw.1.msgHand hw.2).run, recycleMsg_at hw.1⟩

/-! ## The token -/

theorem cancelOwned_run (hcur : w.reqs.cur = some j) (i : MsgSlot) :
    BkRun w (cancelOwned (w.reqs.pool j).moduleId w i) ∧
      Quiet w (cancelOwned (w.reqs.pool j).moduleId w i) := by
  unfold cancelOwned
  split
  next hi =>
    have hdisown : BkStep w (w.onMsgs fun p => p.disown i) := BkStep.disown hcur hi
    have hquiet : Quiet w (w.onMsgs fun p => p.disown i) := ⟨rfl, rfl, rfl, rfl, rfl⟩
    simp only
    split
    · have hflag : BkStep (w.onMsgs fun p => p.disown i)
          (w.onMsgs fun p => p.disown i).disprClrPendingMsg :=
        BkStep.flags true w.status.notifyIdle
      obtain ⟨hrun, hquiet'⟩ := clearPendingMsg_run
        (w.onMsgs fun p => p.disown i).disprClrPendingMsg
      refine ⟨hdisown.run.trans (hflag.run.trans hrun), hquiet.trans (Quiet.trans ?_ hquiet')⟩
      exact ⟨rfl, rfl, rfl, rfl, rfl⟩
    · exact ⟨hdisown.run, hquiet⟩
  next => exact ⟨BkRun.refl w, Quiet.refl w⟩

theorem foldl_cancelOwned_run (hcur : w.reqs.cur = some j) (l : List MsgSlot) :
    BkRun w (l.foldl (cancelOwned (w.reqs.pool j).moduleId) w) ∧
      Quiet w (l.foldl (cancelOwned (w.reqs.pool j).moduleId) w) := by
  induction l generalizing w with
  | nil => exact ⟨BkRun.refl w, Quiet.refl w⟩
  | cons i l ih =>
    obtain ⟨hrun, hquiet⟩ := cancelOwned_run hcur i
    rw [List.foldl_cons]
    obtain ⟨hrun', hquiet'⟩ := ih ((congrArg ReqPool.cur hquiet.reqs).trans hcur)
    rw [show (cancelOwned (w.reqs.pool j).moduleId w i).reqs.pool j = w.reqs.pool j by
      rw [hquiet.reqs]] at hrun' hquiet'
    exact ⟨hrun.trans hrun', hquiet.trans hquiet'⟩

/-- The state after the start of `deregister_cur_cmd_req`. -/
theorem unloadReq_run (hcur : w.reqs.cur = some j) :
    BkRun w (unloadReq w j) ∧
      Quiet (w.onReqs fun p => p.editStatus j fun st => { st with run := false })
        (unloadReq w j) := by
  set w₁ := w.onReqs fun p => p.editStatus j fun st => { st with run := false } with hw₁
  have hstop : BkStep w w₁ := BkStep.stopRun hcur
  obtain ⟨hrun, hquiet⟩ := foldl_cancelOwned_run (w := w₁) hcur (List.finRange 24)
  have hmdl : (w₁.reqs.pool j).moduleId = (w.reqs.pool j).moduleId := by
    simp [hw₁, onReqs, ReqPool.editStatus]
  rw [hmdl] at hrun hquiet
  exact ⟨hstop.run.trans hrun, hquiet⟩

/-- `deregister_cur_cmd_req`. Without the abort notification there is no time for other threads. -/
theorem deregisterCurCmdReq_walk (notify b : Bool) :
    BkTriple (fun w => At none none hd w ∧ (notify = false → w.status.waitAbortMsgDone = b))
      (deregisterCurCmdReq notify)
      (fun w _ => At none none hd w ∧ w.reqs.cur = none ∧
        (notify = false → w.status.waitAbortMsgDone = b)) := by
  refine .get fun w _ hw => ?_
  cases hcur : w.reqs.cur with
  | none =>
    refine .pure fun w' hw' => ?_
    subst hw'
    exact ⟨hw.1, hcur, hw.2⟩
  | some j =>
    dsimp only
    obtain ⟨hrun, hquiet⟩ := unloadReq_run hcur
    have hreqs := hquiet.reqs
    refine .bind (Q := fun w _ => At none none hd w ∧ w.reqs.cur = some j ∧
        (w.reqs.pool j).status.run = false ∧ (notify = false → w.status.waitAbortMsgDone = b))
      (.modify fun w' _ hw' => ?_) fun _ => ?_
    · subst hw'
      refine ⟨hrun, ⟨hquiet.msgHand.trans hw.1.msgHand, ?_, ?_⟩, ?_, ?_, fun hn => ?_⟩
      · exact (congrArg ReqPool.hand hreqs).trans hw.1.reqHand
      · exact (congrArg OpQueue.handling hquiet.ops).trans hw.1.handling
      · exact (congrArg ReqPool.cur hreqs).trans hcur
      · rw [hreqs]
        simp [onReqs, ReqPool.editStatus]
      · exact hquiet.waitAbort.trans (hw.2 hn)
    refine .bind (Q := fun w _ => At none none hd w ∧ w.reqs.cur = some j ∧
      (notify = false → w.status.waitAbortMsgDone = b)) ?_ fun _ => .modify fun w₁ _ hw₁ => ?_
    · unfold abortCur
      split
      next hn =>
        refine .bind (Q := fun w _ => At none none hd w ∧ w.reqs.cur = some j)
          (.modify fun w₁ _ hw₁ => ?_) fun _ => .bind
            (.call _ (fun w₁ hw₁ => hw₁.1.callOk _) fun w₁ w₂ _ hw₁ hr => ?_) fun _ =>
            .modify (P := fun w => At none none hd w ∧ w.reqs.cur = some j) fun w₁ _ hw₁ => ?_
        · exact ⟨(BkStep.lastPermit true hw₁.2.1 fun _ => hw₁.2.2.1).run,
            ⟨hw₁.1.1, hw₁.1.2, hw₁.1.3⟩, hw₁.2.1⟩
        · exact ⟨hw₁.1.rely hr, hr.cur.trans hw₁.2⟩
        · exact ⟨(BkStep.lastPermit false hw₁.2 (by simp)).run, ⟨hw₁.1.1, hw₁.1.2, hw₁.1.3⟩,
            hw₁.2, by simp [hn]⟩
      next => exact .pure fun w₁ hw₁ => ⟨hw₁.1, hw₁.2.1, hw₁.2.2.2⟩
    · exact ⟨(BkStep.releaseToken hw₁.2.1).run, ⟨hw₁.1.1, hw₁.1.2, hw₁.1.3⟩, rfl, hw₁.2.2⟩

theorem takeToken_noLastPermit (hinv : w.reqs.Inv) (hhand : w.reqs.hand = some j) :
    NoLastPermit (takeToken w j) := by
  intro k hk
  obtain rfl : j = k := Option.some.inj hk
  have hw := hinv.hand j (by simp [hhand])
  simpa [takeToken, onReqs, ReqPool.editStatus] using hw.lastPermit

/-- `register_cur_cmd_req`: if the request does not take the token, it is free again. -/
theorem registerCurCmdReq_walk :
    BkTriple (fun w => At none (some j) hd w ∧ (w.reqs.pool j).status.enq = false ∧
        w.reqs.cur = none ∧ w.status.waitAbortMsgDone = false) (registerCurCmdReq j)
      (fun w ok => At none none hd w ∧
        (ok = false → w.reqs.cur = none ∧ w.status.waitAbortMsgDone = false)) := by
  refine .bind (Q := fun w _ => At none none hd w ∧ NoLastPermit w ∧
      w.status.waitAbortMsgDone = false) (.modify fun w hinv hw => ?_) fun _ => ?_
  · obtain ⟨hat, henq, hcur, hwait⟩ := hw
    exact ⟨(BkStep.takeToken hat.reqHand henq hcur hwait).run, ⟨hat.msgHand, rfl, hat.handling⟩,
      takeToken_noLastPermit hinv hat.reqHand, hwait⟩
  refine .bind (Q := fun w _ => At none none hd w ∧ w.status.waitAbortMsgDone = false)
    (.call _ (fun w hw => hw.1.callOk _) fun w w' _ hw hr => ?_) fun ret => ?_
  · exact ⟨hw.1.rely hr, (hr.waitAbort hw.2.1).trans hw.2.2⟩
  split
  next =>
    refine .bind ((deregisterCurCmdReq_walk false false).mono (fun w hw => ⟨hw.1, fun _ => hw.2⟩)
      fun w _ hw => hw) fun _ => .pure fun w hw => ?_
    exact ⟨hw.1, fun _ => ⟨hw.2.1, hw.2.2 rfl⟩⟩
  next => exact .pure fun w hw => ⟨hw.1, nofun⟩

theorem abortWaiting_walk :
    BkTriple (At none (some j) hd) (abortWaiting j) (fun w _ => At none none hd w) :=
  .bind (.call _ (fun _ hw _ hk => Option.some.inj (hw.reqHand.symm.trans hk) ▸ rfl)
    fun _ _ _ hw hr => hw.rely hr) fun _ => .modify fun _ _ hw =>
    ⟨(BkStep.putReqBack hw.reqHand).run, ⟨hw.msgHand, rfl, hw.handling⟩⟩

/-- The messages about the state of the PHY. -/
theorem becomeIdle_run (w : CmdDispatcher) : BkRun w (becomeIdle w) ∧ Rely w (becomeIdle w) := by
  unfold becomeIdle
  split
  · exact ⟨BkRun.refl w, Rely.refl w⟩
  · have hflag : BkStep w (w.onStatus fun st => { st with notifyIdle := true }) :=
      BkStep.flags w.status.clrPendMsg true
    refine ⟨hflag.run.trans (BkStep.sendPhy 2).run, Rely.trans ?_ (disprSendMsg_frame _ _ _).rely⟩
    exact Rely.of_eq rfl rfl rfl rfl rfl

theorem becomeActive_run (w : CmdDispatcher) :
    BkRun w (becomeActive w) ∧ Rely w (becomeActive w) ∧ (becomeActive w).reqs = w.reqs := by
  unfold becomeActive
  split
  · have hflag : BkStep w (w.onStatus fun st => { st with notifyIdle := false }) :=
      BkStep.flags w.status.clrPendMsg false
    have hframe := disprSendMsg_frame (w.onStatus fun st => { st with notifyIdle := false })
      { mdlId := phlMdlPowerMgnt, evtId := 1 } (some {})
    refine ⟨hflag.run.trans (BkStep.sendPhy 1).run, Rely.trans ?_ hframe.rely, hframe.reqs⟩
    exact Rely.of_eq rfl rfl rfl rfl rfl
  · exact ⟨BkRun.refl w, Rely.refl w, rfl⟩

/-! ## The segments -/

/-- What holds before each segment. -/
def Pre : Pc → CmdDispatcher → Prop
  | .proc, w => ∃ n, At none none (some n) w
  | .fin, w => ∃ n, At none none (some n) w
  | .reg, w => ∃ n, At none none (some n) w ∧ w.reqs.cur = none ∧
      w.status.waitAbortMsgDone = false
  | _, w => Free w

theorem handleFree_walk (n : OpNode) :
    BkTriple (At none none (some n)) (handleFree j) (fun w pc => Pre pc w) := by
  refine .get fun w _ hw => ?_
  split
  next =>
    refine .bind ((deregisterCurCmdReq_walk false w.status.waitAbortMsgDone).mono
      (fun w' hw' => ?_) fun _ _ h => h) fun _ => .pure fun w' hw' => ⟨n, hw'.1⟩
    subst hw'
    exact ⟨hw, fun _ => rfl⟩
  next => exact .pure fun w' hw' => ⟨n, hw' ▸ hw⟩

theorem handleCancel_walk (n : OpNode) :
    BkTriple (At none none (some n)) (handleCancel j) (fun w pc => Pre pc w) := by
  refine .get fun w _ hw => ?_
  split
  next henq =>
    refine .bind (Q := fun w _ => At none (some j) (some n) w) (.modify fun w' _ hw' => ?_)
      fun _ => .bind abortWaiting_walk fun _ => .pure fun w' hw' => ⟨n, hw'⟩
    subst hw'
    exact ⟨(BkStep.takeWaiting hw.reqHand henq).run, ⟨hw.msgHand, rfl, hw.handling⟩⟩
  next =>
    split
    next =>
      refine .bind ((deregisterCurCmdReq_walk true false).mono (fun w' hw' => ?_)
        fun _ _ h => h) fun _ => .pure fun w' hw' => ⟨n, hw'.1⟩
      exact ⟨hw' ▸ hw, nofun⟩
    next => exact .pure fun w' hw' => ⟨n, hw' ▸ hw⟩

theorem tokenOpHanler_walk : BkTriple Free tokenOpHanler (fun w pc => Pre pc w) := by
  refine .get fun w _ hw => ?_
  cases hpop : pqPop w.ops.q with
  | none => exact .pure fun w' hw' => hw' ▸ hw
  | some x =>
    obtain ⟨n, q⟩ := x
    refine .bind (Q := fun w _ => At none none (some n) w) (.modify fun w' _ hw' => ?_) fun _ => ?_
    · subst hw'
      exact ⟨(BkStep.takeOp hw.handling hpop).run, ⟨hw.msgHand, hw.reqHand, rfl⟩⟩
    refine .get fun w₁ _ hw₁ => ?_
    have hfin : BkTriple (fun w' => w' = w₁) (pure .fin) (fun w pc => Pre pc w) :=
      .pure fun w' hw' => ⟨n, hw' ▸ hw₁⟩
    have hproc : BkTriple (fun w' => w' = w₁) (pure .proc) (fun w pc => Pre pc w) :=
      .pure fun w' hw' => ⟨n, hw' ▸ hw₁⟩
    dsimp only
    split
    · exact hproc
    · exact hproc
    · split
      · exact (handleFree_walk n).mono (fun w' hw' => hw' ▸ hw₁) fun _ _ h => h
      · exact hfin
    · split
      · exact (handleCancel_walk n).mono (fun w' hw' => hw' ▸ hw₁) fun _ _ h => h
      · exact hfin
    · exact hfin

theorem processTokenReq_walk (n : OpNode) :
    BkTriple (At none none (some n)) processTokenReq (fun w pc => Pre pc w) := by
  refine .get fun w hinv hw => ?_
  split
  next => exact .pure fun w' hw' => ⟨n, hw' ▸ hw⟩
  next h =>
    simp only [Bool.or_eq_true, not_or, Bool.not_eq_true, Bool.not_eq_true', decide_eq_true_eq] at h
    refine .pure fun w' hw' => ?_
    subst hw'
    exact ⟨n, hw, hinv.cur_eq_none h.1.2, h.2⟩

theorem registerNext_walk (n : OpNode) :
    BkTriple (fun w => At none none (some n) w ∧ w.reqs.cur = none ∧
      w.status.waitAbortMsgDone = false) registerNext (fun w pc => Pre pc w) := by
  refine .get fun w hinv hw => ?_
  cases hpop : w.reqs.popFrontWaitReq with
  | none =>
    refine .bind (Q := fun w _ => At none none (some n) w) (.modify fun w' _ hw' => ?_)
      fun _ => .pure fun w' hw' => ⟨n, hw'⟩
    subst hw'
    exact ⟨(becomeIdle_run w').1, hw.1.rely (becomeIdle_run w').2⟩
  | some x =>
    obtain ⟨j, p⟩ := x
    obtain ⟨-, hhand, henq, hcur⟩ := hinv.popFrontWaitReq hw.1.reqHand hpop
    refine .bind (Q := fun w _ => At none (some j) (some n) w ∧
        (w.reqs.pool j).status.enq = false ∧ w.reqs.cur = none ∧
        w.status.waitAbortMsgDone = false) (.modify fun w' _ hw' => ?_) fun _ => ?_
    · subst hw'
      exact ⟨(BkStep.takeReq hw.1.reqHand hpop).run, ⟨hw.1.msgHand, hhand, hw.1.handling⟩, henq,
        hcur.trans hw.2.1, hw.2.2⟩
    refine .bind (Q := fun w _ => At none (some j) (some n) w ∧
        (w.reqs.pool j).status.enq = false ∧ w.reqs.cur = none ∧
        w.status.waitAbortMsgDone = false) (.modify fun w' _ hw' => ?_) fun _ => ?_
    · obtain ⟨hrun, hrely, hreqs⟩ := becomeActive_run w'
      refine ⟨hrun, hw'.1.rely hrely, hreqs ▸ hw'.2.1, hrely.cur.trans hw'.2.2.1, ?_⟩
      exact (hrely.waitAbort (by simp [NoLastPermit, hw'.2.2.1])).trans hw'.2.2.2
    refine .bind registerCurCmdReq_walk fun ok => .pure fun w' hw' => ?_
    cases ok with
    | true => exact ⟨n, hw'.1⟩
    | false => exact ⟨n, hw'.1, hw'.2 rfl⟩

theorem isMsgCanceled_benign (w : CmdDispatcher) (m : MsgEx) : m.Benign (isMsgCanceled w m).1 := by
  unfold isMsgCanceled
  simp only
  split
  · exact MsgEx.Benign.refl m
  split
  · exact ⟨rfl, rfl, rfl, rfl, rfl, rfl, rfl⟩
  split
  · split
    · exact ⟨rfl, rfl, rfl, rfl, rfl, rfl, rfl⟩
    split
    · exact ⟨rfl, rfl, rfl, rfl, rfl, rfl, rfl⟩
    · exact ⟨rfl, rfl, rfl, rfl, rfl, rfl, rfl⟩
  · exact MsgEx.Benign.refl m

/-- The dispatch of the message in hand. -/
theorem msgDispatchIn_walk :
    BkTriple (fun w => At (some i) none none w ∧ w.msgs.notified = false) (msgDispatchIn i)
      (fun w _ => Free w) := by
  have hfocus : BkTriple (fun w => At (some i) none none w ∧ w.msgs.notified = false)
      (Prog.focus (viewOf i) (putView i) BkCall.msg msgDispatch)
      (fun w _ => At (some i) none none w ∧ w.msgs.notified = false) := by
    refine Triple.focus (fun w v hw hv => ?_) (fun w w' hw hr => ?_)
      (fun w q hw => hw.2.1.callOk _) msgDispatch_benign
    · have hstep : BkStep w (putView i w v) := BkStep.editMsg hw.2.1.msgHand hv
      exact ⟨hstep.run, hstep.reqs_inv hw.1, ⟨hw.2.1.1, hw.2.1.2, hw.2.1.3⟩, hw.2.2⟩
    · exact ⟨hr.inv hw.1, hw.2.1.rely hr, hr.notified.trans hw.2.2⟩
  refine .bind hfocus fun out => ?_
  cases out with
  | recycle => exact pushBackIdleMsg_walk
  | reschedule =>
    refine .modify fun w _ hw => ⟨(BkStep.reschedule hw.1.msgHand hw.2).run, rfl, ?_, ?_⟩
    · exact hw.1.reqHand
    · exact hw.1.handling

theorem popFrontWaitMsg_hand {p p' : MsgPool} (h : p.popFrontWaitMsg = some (i, p')) :
    p'.hand = some i ∧ p'.notified = false := by
  obtain ⟨x, -, hx⟩ := Option.map_eq_some_iff.mp h
  obtain ⟨rfl, rfl⟩ := Prod.mk.inj hx
  exact ⟨rfl, rfl⟩

theorem handleMsg_walk :
    BkTriple (fun w => At (some i) none none w ∧ w.msgs.notified = false) (handleMsg i)
      (fun w _ => Free w) := by
  refine .get fun w _ hw => ?_
  refine .bind (Q := fun w _ => At (some i) none none w ∧ w.msgs.notified = false)
    (.modify fun w' _ hw' => ?_) fun _ => ?_
  · subst hw'
    exact ⟨(BkStep.editMsg hw.1.msgHand (isMsgCanceled_benign _ _)).run,
      ⟨hw.1.1, hw.1.2, hw.1.3⟩, hw.2⟩
  split
  next => exact pushBackIdleMsg_walk
  next =>
    refine .bind (.modify fun w' _ hw' => ?_) fun _ => msgDispatchIn_walk
    exact ⟨(BkStep.editMsg (m := (w'.msgs.pool i).andBitmaps w'.modules.bitmap) hw'.1.msgHand
      ⟨rfl, rfl, rfl, rfl, rfl, rfl, rfl⟩).run, ⟨hw'.1.1, hw'.1.2, hw'.1.3⟩, hw'.2⟩

/-- A message is taken from the wait queue. -/
theorem takeMsg_run (hw : Free w) {p : MsgPool} (hpop : w.msgs.popFrontWaitMsg = some (i, p)) :
    BkRun w { w with msgs := p } ∧ At (some i) none none { w with msgs := p } ∧
      p.notified = false := by
  obtain ⟨hhand, hnot⟩ := popFrontWaitMsg_hand hpop
  exact ⟨(BkStep.takeMsg hw.msgHand hpop).run, ⟨hhand, hw.reqHand, hw.handling⟩, hnot⟩

theorem threadMsg_walk : BkTriple Free threadMsg (fun w pc => Pre pc w) := by
  refine .get fun w _ hw => ?_
  cases hpop : w.msgs.popFrontWaitMsg with
  | none => exact .pure fun w' hw' => hw' ▸ hw
  | some x =>
    obtain ⟨i, p⟩ := x
    refine .bind (.modify fun w' _ hw' => ?_) fun _ =>
      .bind handleMsg_walk fun _ => .pure fun w' hw' => hw'
    subst hw'
    exact takeMsg_run hw hpop

theorem clearWaitQ_walk : BkTriple Free clearWaitQ (fun w pc => Pre pc w) := by
  refine .get fun w _ hw => ?_
  cases hpop : w.msgs.popFrontWaitMsg with
  | none => exact .pure fun w' hw' => hw' ▸ hw
  | some x =>
    obtain ⟨i, p⟩ := x
    refine .bind (.modify fun w' _ hw' => ?_) fun _ =>
      .bind pushBackIdleMsg_walk fun _ => .pure fun w' hw' => hw'
    subst hw'
    exact takeMsg_run hw hpop

theorem clearReqWaitQ_walk : BkTriple Free clearReqWaitQ (fun w pc => Pre pc w) := by
  refine .get fun w hinv hw => ?_
  cases hpop : w.reqs.popFrontWaitReq with
  | none => exact .pure fun w' hw' => hw' ▸ hw
  | some x =>
    obtain ⟨j, p⟩ := x
    obtain ⟨-, hhand, -, -⟩ := hinv.popFrontWaitReq hw.reqHand hpop
    refine .bind (.modify fun w' _ hw' => ?_) fun _ =>
      .bind abortWaiting_walk fun _ => .pure fun w' hw' => hw'
    subst hw'
    exact ⟨(BkStep.takeReq hw.reqHand hpop).run, ⟨hw.msgHand, hhand, hw.handling⟩⟩

theorem threadLoop_walk : BkTriple Free threadLoop (fun w pc => Pre pc w) := by
  refine .get fun w _ hw => ?_
  split
  next => exact .pure fun w' hw' => hw' ▸ hw
  next =>
    refine .bind (.modify fun w' _ hw' => ?_) fun _ => .pure fun w' (hw' : Free w') => hw'
    subst hw'
    exact ⟨(clearPendingMsg_run w').1, hw.quiet (clearPendingMsg_run w').2⟩

theorem clearWaitingMsg_walk : BkTriple Free clearWaitingMsg (fun w pc => Pre pc w) := by
  refine .get fun w _ hw => ?_
  split
  next => exact .pure fun w' hw' => hw' ▸ hw
  next =>
    refine .bind (.modify fun w' _ hw' => ?_) fun _ => .pure fun w' (hw' : Free w') => hw'
    subst hw'
    exact ⟨(unpendAll_run w').1, hw.quiet (unpendAll_run w').2⟩

theorem finishOp_at {n : OpNode} (hw : At none none (some n) w) : Free (finishOp w) := by
  unfold finishOp
  rw [hw.handling]
  exact ⟨hw.msgHand, hw.reqHand, rfl⟩

/-- Every segment of the thread takes only steps of the thread. -/
theorem segment_walk (pc : Pc) : BkTriple (Pre pc) (segment pc) (fun w pc' => Pre pc' w) := by
  cases pc with
  | loop => exact threadLoop_walk
  | ops => exact tokenOpHanler_walk
  | proc => exact fun w hw => hw.2.elim fun n hn => processTokenReq_walk n w ⟨hw.1, hn⟩
  | reg => exact fun w hw => hw.2.elim fun n hn => registerNext_walk n w ⟨hw.1, hn⟩
  | fin =>
    refine .bind (.modify fun w _ hw => ?_) fun _ => .pure fun w' (hw' : Free w') => hw'
    obtain ⟨n, hn⟩ := hw
    exact ⟨BkStep.finishOp.run, finishOp_at hn⟩
  | msg => exact threadMsg_walk
  | leave =>
    exact .bind ((deregisterCurCmdReq_walk true false).mono (fun w hw => ⟨hw, nofun⟩)
      fun _ _ h => h) fun _ => .pure fun w hw => hw.1
  | leaveMsgs => exact clearWaitingMsg_walk
  | leaveWait => exact clearWaitQ_walk
  | leaveReqs =>
    refine .get fun w _ hw => .pure fun w' hw' => ?_
    subst hw'
    split <;> exact hw
  | leaveWaitReqs => exact clearReqWaitQ_walk
  | stopped => exact .pure fun w hw => hw

theorem pre_rely {pc : Pc} (h : Pre pc w) (hr : Rely w w') : Pre pc w' := by
  cases pc with
  | proc => exact h.elim fun n hn => ⟨n, hn.rely hr⟩
  | fin => exact h.elim fun n hn => ⟨n, hn.rely hr⟩
  | reg =>
    obtain ⟨n, hat, hcur, hwait⟩ := h
    refine ⟨n, hat.rely hr, hr.cur.trans hcur, ?_⟩
    exact (hr.waitAbort (by simp [NoLastPermit, hcur])).trans hwait
  | _ => exact At.rely h hr

end Walk

/-! ## Runs -/

/-- A condition on the calls of the API. -/
abbrev ApiOk (ok : CmdDispatcher → Api → Prop) : DisprState → DisprEvent → Prop := EnvOk ok

/-- The thread has a request in hand only while it calls the abort routine of this request. -/
def HandOk (m : DisprState) : Prop :=
  ∀ j, m.shared.reqs.hand = some j → ∃ k, m.thread = .waiting (.abort j) k

theorem pre_hand {pc : Pc} {w : CmdDispatcher} (h : Pre pc w) : w.reqs.hand = none := by
  cases pc with
  | proc => exact h.elim fun n hn => hn.reqHand
  | fin => exact h.elim fun n hn => hn.reqHand
  | reg => exact h.elim fun n hn => hn.1.reqHand
  | _ => exact At.reqHand h

/-- What the steps of the thread and the allowed calls of the API keep, as long as the request
pool is in order, holds in every state of every run. -/
theorem dispr_invariant {I : CmdDispatcher → Prop} {ok : CmdDispatcher → Api → Prop}
    (hstep : ∀ w w', BkStep w w' → w.reqs.Inv → I w → I w')
    (hapi : ∀ w a, ok w a → w.reqs.Inv → I w → I (w.api a)) {modules : Modules}
    {ctrlPresent : Bool} (hinit : I (disprStart modules ctrlPresent)) {es : List DisprEvent}
    {m : DisprState} (hes : Guarded disprStep (ApiOk ok) (disprInit modules ctrlPresent) es)
    (h : run disprStep (disprInit modules ctrlPresent) es = some m) :
    HandOk m ∧ m.shared.reqs.Inv ∧ I m.shared := by
  have hrun := coRun_invariant (T := BkRun) (E := Rely) (C := CallOk)
    (I := fun w => w.reqs.Inv ∧ I w) Rely.refl
    (fun _ _ _ h h' => h.trans h') (fun pc => segment_walk pc)
    (fun pc w w' hw hr => ⟨hr.inv hw.1, pre_rely hw.2 hr⟩)
    (fun q w w' hw hr j hj => hw j (hr.reqHand.symm.trans hj)) (fun w a hw => rely_api hw.1 a)
    (fun w w' hrun hw => ?_)
    (fun w a hok hw => ⟨(rely_api hw.1 a).inv hw.1, hapi w a hok hw.1 hw.2⟩)
    es ?_ ?_ hes h
  · refine ⟨fun j hj => ?_, hrun.2⟩
    have hready := hrun.1
    unfold CoState.Ready at hready
    split at hready
    next pc hpc =>
      rw [pre_hand hready.2] at hj
      cases hj
    next q k hk => exact ⟨k, by rw [hk, hready.1 j hj]⟩
  · induction hrun with
    | refl => exact hw
    | tail _ hs ih => exact ⟨hs.reqs_inv ih.1, hstep _ _ hs ih.1 ih.2⟩
  · exact ⟨ReqPool.inv_init, ⟨rfl, rfl, rfl⟩⟩
  · exact ⟨ReqPool.inv_init, hinit⟩

end Rtl88x2cu.Dispatcher
