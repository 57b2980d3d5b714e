import Rtl88x2cu.Dispatcher.Completion

/-!
# Command dispatcher: handles

A handle is the index of a slot with a bit that marks it as valid. It does not say which message or
request the slot held when the handle was issued, and slots are used again. `run_cancel_iff` says
exactly when a cancel with a handle affects only what the handle was issued for: unless the message
or request is gone and another one is in the slot now.
-/

namespace Rtl88x2cu.Dispatcher

open CmdDispatcher

/-- A handle of a message leads back to its slot. -/
theorem msgHdl_valid : ∀ i : MsgSlot,
    isHdlValid (genValidHdl i) = true ∧ getIdxFromHdl (genValidHdl i) = i := by
  decide +kernel

/-- A handle of a request leads back to its slot. -/
theorem reqHdl_valid : ∀ i : ReqSlot,
    isHdlValid (genValidHdl i) = true ∧ getIdxFromHdl (genValidHdl i) = i := by
  decide +kernel

/-! ## Messages -/

/-- `dispr_cancel_msg` with the handle of the message `n`, issued for the slot `i`: if the message
is gone the cancel fails and changes nothing, and else it changes nothing but this message. -/
structure CancelMsgOk (w : CmdDispatcher) (n : ℕ) (i : MsgSlot) : Prop where
  gone : .recycled n ∈ w.msgs.log →
    (w.disprCancelMsg (genValidHdl i)).2 ≠ .success ∧ (w.disprCancelMsg (genValidHdl i)).1 = w
  live : .recycled n ∉ w.msgs.log →
    w.msgs.stamp i = n ∧
      ∃ m, (w.disprCancelMsg (genValidHdl i)).1 = w.onMsgs fun p => p.set i m

/-- The message `n` is gone, and another one is in its slot. -/
def StaleMsg (w : CmdDispatcher) (n : ℕ) (i : MsgSlot) : Prop :=
  w.status.started = true ∧ .recycled n ∈ w.msgs.log ∧ i ∉ w.msgs.idleQ.queue

/-- `dispr_cancel_msg` for a handle it has issued. -/
theorem disprCancelMsg_eq (w : CmdDispatcher) (i : MsgSlot) :
    w.disprCancelMsg (genValidHdl i) =
      if !w.status.started then (w, .unexpectedError)
      else if !(w.msgs.pool i).status.enq && !(w.msgs.pool i).status.run then (w, .failure)
      else (w.onMsgs fun p => p.cancelMsg i, .success) := by
  obtain ⟨hvalid, hidx⟩ := msgHdl_valid i
  unfold disprCancelMsg
  simp only [hvalid, hidx, i.isLt, Bool.not_true, Bool.false_eq_true, if_false, dif_pos]

theorem MsgPool.set_self (p : MsgPool) (i : MsgSlot) : p.set i (p.pool i) = p := by
  simp [MsgPool.set]

theorem cancelMsgOk_iff {w : CmdDispatcher} (hinv : w.msgs.Inv) {S : Prop} (hbook : w.msgs.Book S)
    {n : ℕ} {i : MsgSlot} {c : Bool} (hacc : .accepted n i c ∈ w.msgs.log) :
    CancelMsgOk w n i ↔ ¬ StaleMsg w n i := by
  have heq := disprCancelMsg_eq w i
  constructor
  · -- a stale handle cancels the message that is in the slot now
    rintro ⟨hgone, -⟩ ⟨hstarted, hrec, hi⟩
    have hon : ¬ (!(w.msgs.pool i).status.enq && !(w.msgs.pool i).status.run) = true := by
      rcases hinv.in_use hi with hq | hr
      · simp [hq.enq]
      · simp [hr.run]
    rw [hstarted, Bool.not_true, if_neg Bool.false_ne_true, if_neg hon] at heq
    exact (hgone hrec).1 (by rw [heq])
  · intro hstale
    refine ⟨fun hrec => ?_, fun hrec => ?_⟩
    · by_cases hstarted : w.status.started = true
      · -- the slot is idle
        have hi : i ∈ w.msgs.idleQ.queue := by
          by_contra hi
          exact hstale ⟨hstarted, hrec, hi⟩
        rw [hstarted, (hinv.idle i hi).status] at heq
        rw [heq]
        exact ⟨by simp, rfl⟩
      · rw [Bool.not_eq_true] at hstarted
        rw [hstarted] at heq
        rw [heq]
        exact ⟨by simp, rfl⟩
    · obtain ⟨-, hstamp⟩ := (hbook.kept n i c hacc).resolve_left hrec
      refine ⟨hstamp, ?_⟩
      have hsame : w = w.onMsgs fun p => p.set i (p.pool i) := by
        simp [onMsgs, MsgPool.set_self]
      rw [heq]
      split
      · exact ⟨_, hsame⟩
      · split
        · exact ⟨_, hsame⟩
        · exact ⟨_, rfl⟩

/-! ## Requests -/

/-- The change from `w` to `w'` is about the request in the slot `i`: its record, and its op node
`free_req_info`. -/
structure OnlyReq (w w' : CmdDispatcher) (i : ReqSlot) : Prop where
  status : w'.status = w.status
  exclusiveMdl : w'.exclusiveMdl = w.exclusiveMdl
  modules : w'.modules = w.modules
  msgs : w'.msgs = w.msgs
  reqs : ∃ r, w'.reqs = { w.reqs with pool := Function.update w.reqs.pool i r }
  info : ∀ n, n ≠ .freeReq i → w'.ops.info n = w.ops.info n
  queue : w'.ops.q = w.ops.q ∨ w'.ops.q = pqPush w.ops.q (.freeReq i)
  handling : w'.ops.handling = w.ops.handling

/-- The request that was the `g`-th to get the slot `i` is gone. -/
def ReqGone (w : CmdDispatcher) (g : ℕ) (i : ReqSlot) : Prop :=
  i ∈ w.reqs.idleQ.queue ∨ w.reqs.gen i ≠ g

/-- `dispr_cancel_token_req` with the handle of the `g`-th request in the slot `i`: if the request
is gone the cancel fails and changes nothing, and else it changes nothing but this request. -/
structure CancelReqOk (w : CmdDispatcher) (g : ℕ) (i : ReqSlot) : Prop where
  gone : ReqGone w g i → (w.disprCancelTokenReq (genValidHdl i)).2 ≠ .success ∧
    (w.disprCancelTokenReq (genValidHdl i)).1 = w
  live : ¬ ReqGone w g i → OnlyReq w (w.disprCancelTokenReq (genValidHdl i)).1 i

/-- The `g`-th request in the slot is gone and another one waits, is registered or runs there, which
is not cancelled yet or whose op node is free. -/
def StaleReq (w : CmdDispatcher) (g : ℕ) (i : ReqSlot) : Prop :=
  w.status.started = true ∧ i ∉ w.reqs.idleQ.queue ∧ w.reqs.gen i ≠ g ∧
    ((w.reqs.pool i).status.enq = true ∨ (w.reqs.pool i).status.run = true ∨
      (w.reqs.pool i).status.prepare = true) ∧
    ¬ ((w.reqs.pool i).status.cancel = true ∧ (w.ops.info (.freeReq i)).used = true)

/-- `dispr_cancel_token_req` for a handle it has issued. -/
theorem disprCancelTokenReq_eq (w : CmdDispatcher) (i : ReqSlot) :
    w.disprCancelTokenReq (genValidHdl i) =
      if !w.status.started then (w, .unexpectedError)
      else if !(w.reqs.pool i).status.enq && !(w.reqs.pool i).status.run &&
          !(w.reqs.pool i).status.prepare then (w, .failure)
      else w.enqueueFree i .cancelCmdReq := by
  obtain ⟨hvalid, hidx⟩ := reqHdl_valid i
  unfold disprCancelTokenReq
  simp only [hvalid, hidx, i.isLt, Bool.not_true, Bool.false_eq_true, if_false, dif_pos]

theorem OnlyReq.refl (w : CmdDispatcher) (i : ReqSlot) : OnlyReq w w i where
  status := rfl
  exclusiveMdl := rfl
  modules := rfl
  msgs := rfl
  reqs := ⟨w.reqs.pool i, by simp⟩
  info _ _ := rfl
  queue := Or.inl rfl
  handling := rfl

theorem onlyReq_enqueueFree (w : CmdDispatcher) (i : ReqSlot) (type : OpType) :
    OnlyReq w (w.enqueueFree i type).1 i := by
  rcases enqueueFree_cases w i type with ⟨-, heq⟩ | ⟨-, heq⟩
  · rw [heq]
    exact ⟨rfl, rfl, rfl, rfl, ⟨_, rfl⟩, fun _ _ => rfl, Or.inl rfl, rfl⟩
  · rw [heq]
    exact ⟨rfl, rfl, rfl, rfl, ⟨_, rfl⟩, fun n hn => Function.update_of_ne hn _ _, Or.inr rfl, rfl⟩

/-- Marking a request that is marked already. -/
theorem ReqPool.editStatus_cancel {p : ReqPool} {i : ReqSlot}
    (h : (p.pool i).status.cancel = true) :
    (p.editStatus i fun st => { st with cancel := true }) = p := by
  have hst : { (p.pool i).status with cancel := true } = (p.pool i).status := by rw [← h]
  have hpool : { p.pool i with status := { (p.pool i).status with cancel := true } } =
      p.pool i := by
    rw [hst]
  unfold ReqPool.editStatus
  rw [hpool, Function.update_eq_self]

theorem cancelReqOk_iff {w : CmdDispatcher} (hinv : w.reqs.Inv) (g : ℕ) (i : ReqSlot) :
    CancelReqOk w g i ↔ ¬ StaleReq w g i := by
  have heq := disprCancelTokenReq_eq w i
  constructor
  · rintro ⟨hgone, -⟩ ⟨hstarted, hi, hgen, hst, hbusy⟩
    have hon : ¬ (!(w.reqs.pool i).status.enq && !(w.reqs.pool i).status.run &&
        !(w.reqs.pool i).status.prepare) = true := by
      rcases hst with hst | hst | hst <;> simp [hst]
    rw [hstarted, Bool.not_true, if_neg Bool.false_ne_true, if_neg hon] at heq
    obtain ⟨hfail, hsame⟩ := hgone (Or.inr hgen)
    rw [heq] at hfail hsame
    rcases enqueueFree_cases w i .cancelCmdReq with ⟨hused, hres⟩ | ⟨-, hres⟩
    · -- the cancel fails, but marks the request
      rw [hres] at hsame
      refine hbusy ⟨?_, hused⟩
      have hmark := congrArg (fun w' : CmdDispatcher => (w'.reqs.pool i).status.cancel) hsame
      simpa [onReqs, ReqPool.editStatus] using hmark.symm
    · exact hfail (by rw [hres])
  · intro hstale
    refine ⟨fun hgone => ?_, fun _ => ?_⟩
    · rw [heq]
      split
      · exact ⟨by simp, rfl⟩
      next hstarted =>
        split
        · exact ⟨by simp, rfl⟩
        next hon =>
          have hst : (w.reqs.pool i).status.enq = true ∨ (w.reqs.pool i).status.run = true ∨
              (w.reqs.pool i).status.prepare = true := by
            simpa only [Bool.and_eq_true, Bool.not_eq_true', not_and_or, Bool.not_eq_false,
              or_assoc] using hon
          have hi : i ∉ w.reqs.idleQ.queue := by
            refine hinv.not_idle fun hnil => ?_
            simp [hnil] at hst
          have hbusy : (w.reqs.pool i).status.cancel = true ∧
              (w.ops.info (.freeReq i)).used = true := by
            by_contra hbusy
            exact hstale ⟨by simpa using hstarted, hi, hgone.resolve_left hi, hst, hbusy⟩
          rcases enqueueFree_cases w i .cancelCmdReq with ⟨-, hres⟩ | ⟨hused, -⟩
          · rw [hres]
            refine ⟨by simp, ?_⟩
            simp only [onReqs, ReqPool.editStatus_cancel hbusy.1]
          · rw [hbusy.2] at hused
            cases hused
    · rw [heq]
      split
      · exact OnlyReq.refl w i
      · split
        · exact OnlyReq.refl w i
        · exact onlyReq_enqueueFree w i _

/-! ## Runs -/

/-- In every state of every run, a cancel with a handle that was issued for a message or a request
affects only this message or request, and nothing if it is gone, exactly if the handle is not
stale. -/
theorem run_cancel_iff (modules : Modules) (ctrlPresent : Bool) (es : List DisprEvent)
    (m : DisprState) (h : run disprStep (disprInit modules ctrlPresent) es = some m) :
    (∀ n i c, .accepted n i c ∈ m.shared.msgs.log →
      (CancelMsgOk m.shared n i ↔ ¬ StaleMsg m.shared n i)) ∧
    ∀ g i, CancelReqOk m.shared g i ↔ ¬ StaleReq m.shared g i := by
  have hes : Guarded disprStep (ApiOk fun w a => False → refusedSilent w a = true)
      (disprInit modules ctrlPresent) es :=
    guarded_envOk (fun _ _ hfalse => hfalse.elim) _ es
  obtain ⟨hreqs, hinv, hbook⟩ := run_book hes h
  exact ⟨fun n i c hacc => cancelMsgOk_iff hinv hbook hacc, fun g i => cancelReqOk_iff hreqs g i⟩

/-- A message is sent in slot 0 and completed, and then all slots are filled with other messages:
the last one gets slot 0. -/
def slotReusedRun : List DisprEvent :=
  completedRun ++ List.replicate 24 (.env (.sendMsg { mdlId := 1, evtId := 4 } none))

theorem run_cancel_iff_completed :
    ∃ m, run disprStep (disprInit noModules true) completedRun = some m ∧
      CancelMsgOk m.shared 0 0 := by
  refine ⟨_, rfl, ?_⟩
  refine ((run_cancel_iff noModules true completedRun _ rfl).1 0 0 true ?_).mpr ?_
  · decide +kernel
  · exact fun hstale => absurd hstale.2.2 (by decide +kernel)

/-- The handle of the first message cancels the last one. -/
theorem stale_handle_cancels_new_message :
    ∃ m, run disprStep (disprInit noModules true) slotReusedRun = some m ∧
      .accepted 0 0 true ∈ m.shared.msgs.log ∧ .recycled 0 ∈ m.shared.msgs.log ∧
      .accepted 24 0 false ∈ m.shared.msgs.log ∧ .recycled 24 ∉ m.shared.msgs.log ∧
      (m.shared.disprCancelMsg (genValidHdl 0)).2 = .success ∧
      (m.shared.msgs.pool 0).status.cancel = false ∧
      ((m.shared.disprCancelMsg (genValidHdl 0)).1.msgs.pool 0).status.cancel = true :=
  ⟨_, rfl, by decide +kernel, by decide +kernel, by decide +kernel, by decide +kernel,
    by decide +kernel, by decide +kernel, by decide +kernel⟩

end Rtl88x2cu.Dispatcher
