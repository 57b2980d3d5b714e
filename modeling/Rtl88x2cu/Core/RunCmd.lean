import Rtl88x2cu.Core.CmdQueue

/-!
# The two ways to process a command

`rtw_run_cmd` processes a command in the context of its caller, and `rtw_cmd_thread` in an iteration
of its loop (`core/rtw_cmd.c`). Both bodies are modelled here by what they do to the command, in
order; `run_cmdThreadIteration` connects that of the thread with the steps of the thread on the
queue.

`runCmd_alike_iff` says for which commands the two do the same.
-/

namespace Rtl88x2cu.Core.Cmd

/-! ## Model -/

/-- `RTW_SCTX_DONE_SUCCESS` and `RTW_SCTX_DONE_CMD_ERROR`. -/
inductive SctxStatus
  | success
  | cmdError
deriving DecidableEq, Repr

/-- What is done to a command: it is refused, the handler of a code runs on the copy of the
parameters, its waiter is completed, its callback is called with `pcmd->res`, it is freed. -/
inductive CmdEvent
  | refused
  | handled (cmdcode : ℕ) (parmbuf : Parm) (cmdsz : ℕ)
  | completed (status : SctxStatus)
  | called (callback : Callback) (res : ℕ)
  | freed
deriving DecidableEq

/-- The results of the handlers, by code and parameters. -/
abbrev Handlers := ℕ → Parm → ℕ → ℕ

variable (hdl : Handlers)

/-- From `post_process` to the callback, the same in both bodies. -/
def sctxEvents (sctx : Bool) (res : ℕ) : List CmdEvent :=
  if sctx then [.completed (if res = h2cSuccess then .success else .cmdError)] else []

/-- The last event: the callback, or the freeing of the object where there is none. -/
def endEvent (cb : Option Callback) (res : ℕ) : CmdEvent :=
  match cb with
  | none => .freed
  | some cb => .called cb res

/-- `rtw_run_cmd` up to `post_process`: what has been done, and `pcmd->res`. -/
def rtwRunCmdHdl (o : CmdObj) (res : ℕ) (discard : Bool) : Option (List CmdEvent × ℕ) :=
  if discard then some ([], res)
  else if o.cmdsz > maxCmdsz then some ([.refused], h2cParametersError)
  else if o.cmdcode ≥ wlancmds.length then some ([.refused], h2cParametersError)
  else
    (wlancmds[o.cmdcode]?).map fun cmd =>
      if !cmd.cmdHdl then ([.refused], h2cParametersError)
      else ([.handled o.cmdcode o.parmbuf o.cmdsz], hdl o.cmdcode o.parmbuf o.cmdsz)

/-- The callback that `rtw_run_cmd` selects. -/
def rtwRunCmdCallback (o : CmdObj) : Option (Option Callback) :=
  if o.cmdcode ≥ wlancmds.length then (wlancmds[o.cmdcode]?).map RtwCmd.callback else some none

/-- `rtw_run_cmd`, with `pcmd->sctx` and `pcmd->res`. `none` where the command table is read outside
of it. -/
def rtwRunCmd (o : CmdObj) (sctx : Bool) (res : ℕ) (discard : Bool) : Option (List CmdEvent) := do
  let (es, res) ← rtwRunCmdHdl hdl o res discard
  let cb ← rtwRunCmdCallback o
  some (es ++ (sctxEvents sctx res ++ [endEvent cb res]))

/-- An iteration of `rtw_cmd_thread` up to `post_process`. -/
def cmdThreadHdl (o : CmdObj) (filter : Bool) : Option (List CmdEvent × ℕ) :=
  if o.cmdsz > maxCmdsz then some ([.refused], h2cParametersError)
  else if o.cmdcode ≥ wlancmds.length then some ([.refused], h2cParametersError)
  else
    (wlancmds[o.cmdcode]?).map fun cmd =>
      if !cmd.cmdHdl then ([.refused], h2cParametersError)
      else if !filter then ([.refused], h2cDropped)
      else ([.handled o.cmdcode o.parmbuf o.cmdsz], hdl o.cmdcode o.parmbuf o.cmdsz)

/-- The callback that `rtw_cmd_thread` selects. -/
def cmdThreadCallback (o : CmdObj) : Option (Option Callback) :=
  if o.cmdcode < wlancmds.length then (wlancmds[o.cmdcode]?).map RtwCmd.callback else some none

/-- An iteration of `rtw_cmd_thread` from the dequeue of an object on. -/
def cmdThreadIteration (o : CmdObj) (sctx filter : Bool) : Option (List CmdEvent) := do
  let (es, res) ← cmdThreadHdl hdl o filter
  let cb ← cmdThreadCallback o
  some (es ++ (sctxEvents sctx res ++ [endEvent cb res]))

/-! ## The thread on the queue -/

/-- What an event is on the object of a call. -/
def CmdEvent.apply (c : Call) : CmdEvent → Option Call
  | .refused => some { c with ledger := { c.ledger with dropped := c.ledger.dropped + 1 } }
  | .handled _ _ _ =>
    let l := freePbuf c.obj c.ledger
    some { c with ledger := { l with handled := l.handled + 1 } }
  | .completed _ =>
    some { c with sctx := false, ledger := { c.ledger with completed := c.ledger.completed + 1 } }
  | .called cb res => (cb.run c.obj res c.ledger).map fun l => { c with ledger := l }
  | .freed => some { c with ledger := rtwFreeCmdObj c.obj c.ledger }

/-- Some events, one after the other. -/
def applyEvents (c : Call) (es : List CmdEvent) : Option Call := es.foldlM CmdEvent.apply c

theorem applyEvents_append (c : Call) (es fs : List CmdEvent) :
    applyEvents c (es ++ fs) = (applyEvents c es).bind fun d => applyEvents d fs :=
  List.foldlM_append

/-- Completing the waiter is the event for it. -/
theorem applyEvents_sctxEvents (c : Call) (res : ℕ) :
    applyEvents c (sctxEvents c.sctx res) = some (rtwSctxDone c) := by
  unfold sctxEvents rtwSctxDone
  cases h : c.sctx <;> rfl

/-- The selection of the callback in the thread stays in the table. -/
theorem cmdThreadCallback_eq (o : CmdObj) :
    cmdThreadCallback o = some (callbackOf o.cmdcode) := by
  unfold cmdThreadCallback callbackOf
  split
  · next h => rw [List.getElem?_eq_getElem h]; rfl
  · next h => rw [List.getElem?_eq_none (Nat.not_lt.mp h)]; rfl

theorem cmdThreadIteration_eq (o : CmdObj) (sctx filter : Bool) :
    cmdThreadIteration hdl o sctx filter = (cmdThreadHdl hdl o filter).map fun p =>
      p.1 ++ (sctxEvents sctx p.2 ++ [endEvent (callbackOf o.cmdcode) p.2]) := by
  unfold cmdThreadIteration
  rw [cmdThreadCallback_eq]
  cases cmdThreadHdl hdl o filter <;> rfl

/-- The thread from `post_process` on. -/
theorem run_post {s : St} {i res : ℕ} {c : Call} (hth : s.thread = .post i res)
    (hc : s.calls[i]? = some c) :
    run step s [.thread 0, .thread 0] =
      (applyEvents c (sctxEvents c.sctx res ++ [endEvent (callbackOf c.obj.cmdcode) res])).map
        fun d => { s with thread := .next, calls := s.calls.set i d } := by
  have hlt : i < s.calls.length := (List.getElem?_eq_some_iff.mp hc).1
  have hpost : step s (.thread 0) = some { s with
      thread := .finish i res, calls := s.calls.set i (rtwSctxDone c) } := by
    simp [step, rtwCmdThread, hth, hc]
  have hobj : (rtwSctxDone c).obj = c.obj := by
    unfold rtwSctxDone
    split <;> rfl
  rw [applyEvents_append, applyEvents_sctxEvents, run_cons, hpost, Option.bind_some,
    Option.bind_some, run_cons]
  simp only [step, rtwCmdThread, List.getElem?_set_self hlt, Option.bind_some, postProcess, hobj]
  cases callbackOf c.obj.cmdcode with
  | none => simp [endEvent, applyEvents, CmdEvent.apply, hobj]
  | some cb =>
    simp only [endEvent, applyEvents, List.foldlM_cons, List.foldlM_nil, CmdEvent.apply, hobj]
    cases cb.run c.obj res (rtwSctxDone c).ledger <;> simp

/-- The parameters of a command can be copied, and read by the handler. -/
def CmdObj.Readable (o : CmdObj) : Prop := (o.parmbuf = .null → o.cmdsz = 0) ∧ o.ExtraRead

/-- The steps of the thread on a command that passes the filter are those of
`cmdThreadIteration`. -/
theorem run_cmdThreadIteration {s : St} {i : ℕ} {c : Call} (hth : s.thread = .got i)
    (hc : s.calls[i]? = some c) (hfilter : rtwCmdFilter s c.obj = true) (hparm : c.obj.Readable)
    {es : List CmdEvent} (hes : cmdThreadIteration hdl c.obj c.sctx true = some es) :
    ∃ as, run step s as = (applyEvents c es).map fun d =>
      { s with thread := .next, calls := s.calls.set i d } := by
  have hlt : i < s.calls.length := (List.getElem?_eq_some_iff.mp hc).1
  rw [cmdThreadIteration_eq] at hes
  obtain ⟨⟨ev, res⟩, hhdl, rfl⟩ := Option.map_eq_some_iff.mp hes
  -- past `judge` and the handler, the rest is `run_post`
  suffices hpre : ∃ as d, applyEvents c ev = some d ∧ d.obj = c.obj ∧ d.sctx = c.sctx ∧
      run step s as = some { s with thread := .post i res, calls := s.calls.set i d } by
    obtain ⟨as, d, hd, hobj, hsctx, has⟩ := hpre
    refine ⟨as ++ [.thread 0, .thread 0], ?_⟩
    have hpost := run_post (s := { s with thread := .post i res, calls := s.calls.set i d })
      rfl (List.getElem?_set_self hlt)
    dsimp only
    rw [applyEvents_append c ev, hd, Option.bind_some, run_append, has, Option.bind_some, hpost,
      hobj, hsctx]
    simp only [List.set_set]
  have hstep (t : St) (a : Act) (ht : step s a = some t) : run step s [a] = some t := by
    rw [run_cons, ht]
    rfl
  have hgot : step s (.thread 0) = judge s i c := by
    simp [step, rtwCmdThread, hth, hc]
  have hrefused (hj : judge s i c = some { s with
      thread := .post i h2cParametersError
      calls := s.calls.set i { c with
        ledger := { c.ledger with dropped := c.ledger.dropped + 1 } } })
      (hev : ([CmdEvent.refused], h2cParametersError) = (ev, res)) :
      ∃ as d, applyEvents c ev = some d ∧ d.obj = c.obj ∧ d.sctx = c.sctx ∧
        run step s as = some { s with thread := .post i res, calls := s.calls.set i d } := by
    obtain ⟨rfl, rfl⟩ := Prod.mk.inj hev
    exact ⟨[.thread 0], _, rfl, rfl, rfl, hstep _ _ (hgot.trans hj)⟩
  unfold cmdThreadHdl at hhdl
  split at hhdl
  · next hsz => exact hrefused (by simp [judge, hsz]) (Option.some.inj hhdl)
  next hsz =>
  split at hhdl
  · next hcode =>
    exact hrefused (by simp [judge, hsz, List.getElem?_eq_none hcode]) (Option.some.inj hhdl)
  · obtain ⟨cmd, hcmd, hhdl⟩ := Option.map_eq_some_iff.mp hhdl
    split at hhdl
    · next hno => exact hrefused (by simp [judge, hsz, hcmd, hno]) hhdl
    · next hyes =>
      obtain ⟨rfl, rfl⟩ := Prod.mk.inj hhdl
      have hj : judge s i c = some { s with thread := .exec i } := by
        simp [judge, hsz, hcmd, hyes, hfilter]
      refine ⟨[.thread 0, .thread (hdl c.obj.cmdcode c.obj.parmbuf c.obj.cmdsz)], _, rfl, rfl, rfl,
        ?_⟩
      rw [run_cons, hgot, hj, Option.bind_some, run_cons]
      simp only [step, rtwCmdThread, hc, Option.bind_some, execute]
      unfold CmdObj.Readable at hparm
      rw [if_pos hparm]
      rfl

/-! ## The two bodies -/

/-- The two bodies do the same to a command that the thread does not filter out, and read the
command table only inside it. -/
def Alike (o : CmdObj) (sctx : Bool) (res : ℕ) : Prop :=
  ∃ es, rtwRunCmd hdl o sctx res false = some es ∧ cmdThreadIteration hdl o sctx true = some es

/-- Up to `post_process` the two bodies do the same. -/
theorem rtwRunCmdHdl_eq (o : CmdObj) (res : ℕ) :
    rtwRunCmdHdl hdl o res false = cmdThreadHdl hdl o true := rfl

/-- Both bodies get to `post_process`. -/
theorem cmdThreadHdl_isSome (o : CmdObj) (filter : Bool) :
    ∃ p, cmdThreadHdl hdl o filter = some p := by
  unfold cmdThreadHdl
  split
  · exact ⟨_, rfl⟩
  split
  · exact ⟨_, rfl⟩
  · next h =>
    rw [List.getElem?_eq_getElem (Nat.not_le.mp h)]
    exact ⟨_, rfl⟩

/-- The two bodies differ in the command that has a callback, and in the code outside the table. -/
theorem runCmd_alike_iff (o : CmdObj) (sctx : Bool) (res : ℕ) :
    Alike hdl o sctx res ↔ ∃ cmd, wlancmds[o.cmdcode]? = some cmd ∧ cmd.callback = none := by
  obtain ⟨⟨ev, r⟩, hp⟩ := cmdThreadHdl_isSome hdl o true
  unfold Alike rtwRunCmd
  rw [cmdThreadIteration_eq, rtwRunCmdHdl_eq, hp]
  simp only [Option.bind_eq_bind, Option.bind_some, Option.map_some, Option.some.injEq,
    exists_eq_right']
  unfold rtwRunCmdCallback callbackOf
  by_cases hcode : o.cmdcode < wlancmds.length
  · rw [if_neg (Nat.not_le.mpr hcode), List.getElem?_eq_getElem hcode]
    cases hcb : wlancmds[o.cmdcode].callback with
    | none => simp [hcb]
    | some cb =>
      -- `rtw_run_cmd` frees the command, the thread calls back
      simp [hcb, endEvent]
  · have hnone : wlancmds[o.cmdcode]? = none := List.getElem?_eq_none (Nat.not_lt.mp hcode)
    rw [if_pos (Nat.not_lt.mp hcode), hnone]
    simp

/-- A join command is freed by `rtw_run_cmd` without its callback, and a code behind the table makes
it read there. -/
theorem runCmd_not_alike :
    ¬Alike (fun _ _ _ => h2cSuccess) ⟨0, .plain, 8, false, 0, true, false⟩ true 0 ∧
      rtwRunCmd (fun _ _ _ => h2cSuccess) ⟨25, .plain, 8, false, 0, true, false⟩ true 0 false =
        none := by
  refine ⟨?_, rfl⟩
  rw [runCmd_alike_iff]
  rintro ⟨cmd, hcmd, hcb⟩
  cases hcmd
  cases hcb

end Rtl88x2cu.Core.Cmd
