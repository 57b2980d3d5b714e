import Mathlib.Algebra.Order.Ring.Nat
import Rtl88x2cu.Lib.Run

/-!
# The command queue and its thread

A caller hands a command object to `rtw_enqueue_cmd`; the command thread takes the objects from the
queue, runs or drops each, completes its waiter and frees it (`core/rtw_cmd.c`). Callers and thread
interleave: every read or write of something shared is a step of its own.

The objects are numbered in the order of the calls. A call keeps its object and a ledger of what has
been done to it.
-/

namespace Rtl88x2cu.Core.Cmd

/-! ## Command objects -/

/-- `MAX_CMDSZ`. -/
def maxCmdsz : ℕ := 1536

/-- `CMD_SET_DRV_EXTRA`. -/
def cmdSetDrvExtra : ℕ := 12

/-- `CMD_SET_CHANPLAN`. -/
def cmdSetChanplan : ℕ := 13

/-- `H2C_SUCCESS`. -/
def h2cSuccess : ℕ := 0

/-- `H2C_DROPPED`. -/
def h2cDropped : ℕ := 3

/-- `H2C_PARAMETERS_ERROR`. -/
def h2cParametersError : ℕ := 4

/-- What `parmbuf` points to. The buffer of a driver-extra command is a `struct drvextra_cmd_parm`,
of which `size` and whether `pbuf` is set are read. -/
inductive Parm
  | null
  | plain
  | extra (pbuf : Bool) (size : ℤ)
deriving DecidableEq

/-- `struct cmd_obj`. Of `rsp` and `sctx` it is kept whether they are set. -/
structure CmdObj where
  cmdcode : ℕ
  parmbuf : Parm
  cmdsz : ℕ
  rsp : Bool
  rspsz : ℕ
  sctx : Bool
  noIo : Bool
deriving DecidableEq

/-- The callbacks of the command table. -/
inductive Callback
  | joinbss
  | disassoc
  | survey
  | setstaKey
deriving DecidableEq

/-- `struct rtw_cmd`: whether there is a handler, and the callback. -/
structure RtwCmd where
  cmdHdl : Bool
  callback : Option Callback

/-- `wlancmds`. -/
def wlancmds : List RtwCmd :=
  [⟨true, some .joinbss⟩, ⟨true, some .disassoc⟩, ⟨true, none⟩, ⟨true, none⟩,
    ⟨true, some .survey⟩, ⟨true, none⟩, ⟨true, none⟩, ⟨true, some .setstaKey⟩, ⟨true, none⟩,
    ⟨true, none⟩, ⟨true, none⟩, ⟨true, none⟩, ⟨true, none⟩, ⟨true, none⟩, ⟨true, none⟩,
    ⟨true, none⟩, ⟨true, none⟩, ⟨true, none⟩, ⟨true, none⟩, ⟨true, none⟩, ⟨true, none⟩,
    ⟨true, none⟩, ⟨true, none⟩, ⟨true, none⟩, ⟨true, none⟩]

/-- How often something was done to an object and its buffers. -/
structure Ledger where
  handled : ℕ := 0
  dropped : ℕ := 0
  completed : ℕ := 0
  objFreed : ℕ := 0
  parmFreed : ℕ := 0
  rspFreed : ℕ := 0
  pbufFreed : ℕ := 0
deriving DecidableEq

/-- The parameter buffers that `rtw_free_cmd_obj` frees. -/
def CmdObj.parms (o : CmdObj) : ℕ := if o.parmbuf = .null then 0 else 1

/-- The response buffers that `rtw_free_cmd_obj` frees. -/
def CmdObj.rsps (o : CmdObj) : ℕ := if o.rsp ∧ o.rspsz ≠ 0 then 1 else 0

/-- The extra buffers of an object: `extra_parm->pbuf && extra_parm->size > 0`. -/
def CmdObj.pbufs (o : CmdObj) : ℕ :=
  match o.parmbuf with
  | .extra true size => if o.cmdcode = cmdSetDrvExtra ∧ size > 0 then 1 else 0
  | _ => 0

/-- `extra_parm` of a driver-extra command can be read. -/
def CmdObj.ExtraRead (o : CmdObj) : Prop :=
  o.cmdcode = cmdSetDrvExtra → ∃ pbuf size, o.parmbuf = .extra pbuf size

instance instDecidableExtraRead (o : CmdObj) : Decidable o.ExtraRead :=
  match h : o.parmbuf with
  | .extra pbuf size => isTrue fun _ => ⟨pbuf, size, h⟩
  | .null => decidable_of_iff (o.cmdcode ≠ cmdSetDrvExtra) (by simp [CmdObj.ExtraRead, h])
  | .plain => decidable_of_iff (o.cmdcode ≠ cmdSetDrvExtra) (by simp [CmdObj.ExtraRead, h])

/-- `rtw_free_cmd_obj`. -/
def rtwFreeCmdObj (o : CmdObj) (l : Ledger) : Ledger :=
  { l with
    parmFreed := l.parmFreed + o.parms
    rspFreed := l.rspFreed + o.rsps
    objFreed := l.objFreed + 1 }

/-- Freeing the extra buffer of a driver-extra command. -/
def freePbuf (o : CmdObj) (l : Ledger) : Ledger := { l with pbufFreed := l.pbufFreed + o.pbufs }

/-- `bAllow`: the command needs no initialised hardware. -/
def CmdObj.allow (o : CmdObj) : Bool := o.cmdcode = cmdSetChanplan || o.noIo

/-! ## States -/

/-- How far a call of `rtw_enqueue_cmd` is: entered, past the read of `hw_init_completed`, past the
read of `cmdthd_running`, past the insertion, about to free a refused object, returned. The results
are `_SUCCESS` and `_FAIL`. -/
inductive Pc
  | called
  | hwRead
  | passed
  | inserted
  | refusing (res : Bool)
  | returned (res : Bool)
deriving DecidableEq

/-- A call of `rtw_enqueue_cmd`. `sctx` is the pointer in the object, `gaveUp` that the waiter timed
out and has cleared it. -/
structure Call where
  obj : CmdObj
  pc : Pc
  sctx : Bool
  gaveUp : Bool
  ledger : Ledger
deriving DecidableEq

/-- Where the thread is: not running, before `_rtw_down_sema`, past it, before the test of the
queue, at `_next`, before the dequeue, with an object before the filter, before its handler, before
the completion, before the callback; past the loop, draining, and with a dropped object before each
of the three steps on it. -/
inductive ThreadPc
  | gone
  | down
  | awake
  | peek
  | next
  | dequeue
  | got (i : ℕ)
  | exec (i : ℕ)
  | post (i : ℕ) (res : ℕ)
  | finish (i : ℕ) (res : ℕ)
  | leaving
  | draining
  | drop (i : ℕ)
  | dropPost (i : ℕ)
  | dropFree (i : ℕ)
deriving DecidableEq

/-- `struct cmd_priv` with its callers and its thread. `enqueued` and `taken` are the objects put
into and taken from the queue so far, in order. -/
structure St where
  hwInit : Bool
  cannotRun : Bool
  cmdthdRunning : Bool
  cmdQueueSema : ℕ
  cmdQueue : List ℕ
  calls : List Call
  thread : ThreadPc
  enqueued : List ℕ
  taken : List ℕ
deriving DecidableEq

/-- `rtw_init_cmd_priv`. -/
def rtwInitCmdPriv : St := ⟨false, false, false, 0, [], [], .gone, [], []⟩

/-- What happens next: the hardware or the driver changes state, an object is handed to
`rtw_enqueue_cmd`, a call goes on, its waiter times out, the thread is started, goes on (with the
result of a handler), is interrupted in the semaphore, or is told to stop. -/
inductive Act
  | hwInit (b : Bool)
  | cannotRun (b : Bool)
  | call (o : Option CmdObj)
  | caller (i : ℕ)
  | timeout (i : ℕ)
  | start
  | thread (ret : ℕ)
  | interrupt
  | stop
deriving DecidableEq

/-! ## Callers -/

/-- `rtw_enqueue_cmd` is entered. -/
def rtwEnqueueCmd (s : St) : Option CmdObj → St
  | none => s
  | some o => { s with calls := s.calls ++ [⟨o, .called, o.sctx, false, {}⟩] }

/-- The next step of a call. -/
def callerStep (s : St) (i : ℕ) (c : Call) : Option St :=
  match c.pc with
  | .called =>
    -- the two reads of `rtw_cmd_filter` are separate
    let pc := if !s.hwInit && !c.obj.allow then .refusing false else .hwRead
    some { s with calls := s.calls.set i { c with pc := pc } }
  | .hwRead =>
    let pc := if !s.cmdthdRunning then .refusing false
      else if c.obj.cmdsz > maxCmdsz then .refusing true
      else .passed
    some { s with calls := s.calls.set i { c with pc := pc } }
  | .passed =>
    some { s with
      calls := s.calls.set i { c with pc := .inserted }
      cmdQueue := s.cmdQueue ++ [i]
      enqueued := s.enqueued ++ [i] }
  | .inserted =>
    some { s with
      calls := s.calls.set i { c with pc := .returned true }
      cmdQueueSema := s.cmdQueueSema + 1 }
  | .refusing res =>
    if c.obj.ExtraRead then
      some { s with
        calls := s.calls.set i { c with
          pc := .returned res
          ledger := rtwFreeCmdObj c.obj (freePbuf c.obj c.ledger) } }
    else none
  | .returned _ => none

/-- The waiter of an accepted command times out: under `sctx_mutex` it clears the pointer in the
object unless it has been completed. -/
def waiterTimeout (s : St) (i : ℕ) (c : Call) : Option St :=
  if c.pc = .returned true ∧ c.obj.sctx ∧ ¬c.gaveUp then
    if c.ledger.completed = 0 then
      some { s with calls := s.calls.set i { c with sctx := false, gaveUp := true } }
    else some s
  else none

/-! ## The thread -/

/-- Completing the waiter, if the pointer is set: `rtw_sctx_done_err`. -/
def rtwSctxDone (c : Call) : Call :=
  if c.sctx then
    { c with sctx := false, ledger := { c.ledger with completed := c.ledger.completed + 1 } }
  else c

/-- `rtw_cmd_filter` in the thread. -/
def rtwCmdFilter (s : St) (o : CmdObj) : Bool := (s.hwInit || o.allow) && s.cmdthdRunning

/-- From the dequeue of an object to its handler, or to `post_process`. -/
def judge (s : St) (i : ℕ) (c : Call) : Option St :=
  let refuse := fun (l : Ledger) (res : ℕ) => { s with
    thread := .post i res
    calls := s.calls.set i { c with ledger := { l with dropped := l.dropped + 1 } } }
  if c.obj.cmdsz > maxCmdsz then some (refuse c.ledger h2cParametersError)
  else
    match wlancmds[c.obj.cmdcode]? with
    | none => some (refuse c.ledger h2cParametersError)
    | some cmd =>
      if !cmd.cmdHdl then some (refuse c.ledger h2cParametersError)
      else if rtwCmdFilter s c.obj then some { s with thread := .exec i }
      else if c.obj.parmbuf = .null ∨ c.obj.ExtraRead then
        some (refuse (freePbuf c.obj c.ledger) h2cDropped)
      else none

/-- The parameters are copied and the handler runs, with result `ret`. The handler of a driver-extra
command frees the extra buffer. -/
def execute (s : St) (i : ℕ) (c : Call) (ret : ℕ) : Option St :=
  if (c.obj.parmbuf = .null → c.obj.cmdsz = 0) ∧ c.obj.ExtraRead then
    let l := freePbuf c.obj c.ledger
    some { s with
      thread := .post i ret
      calls := s.calls.set i { c with ledger := { l with handled := l.handled + 1 } } }
  else none

/-- What a callback does with the object, `none` where it reads through a null pointer. -/
def Callback.run (cb : Callback) (o : CmdObj) (res : ℕ) (l : Ledger) : Option Ledger :=
  match cb with
  | .joinbss => some (rtwFreeCmdObj o l)
  | .disassoc => some (if res = h2cSuccess then rtwFreeCmdObj o l else l)
  | .survey => some l
  | .setstaKey => if o.rsp then some (rtwFreeCmdObj o l) else none

/-- The callback of a command code. -/
def callbackOf (cmdcode : ℕ) : Option Callback := (wlancmds[cmdcode]?).bind RtwCmd.callback

/-- The callback is called, or the object freed where there is none. -/
def postProcess (s : St) (i : ℕ) (c : Call) (res : ℕ) : Option St :=
  let l := match callbackOf c.obj.cmdcode with
    | none => some (rtwFreeCmdObj c.obj c.ledger)
    | some cb => cb.run c.obj res c.ledger
  l.map fun l => { s with thread := .next, calls := s.calls.set i { c with ledger := l } }

/-- `rtw_cmd_thread`: its next step. -/
def rtwCmdThread (s : St) (ret : ℕ) : Option St :=
  match s.thread with
  | .gone => none
  | .down =>
    if s.cmdQueueSema = 0 then none
    else some { s with cmdQueueSema := s.cmdQueueSema - 1, thread := .awake }
  | .awake => some { s with thread := if s.cannotRun then .leaving else .peek }
  | .peek => some { s with thread := if s.cmdQueue = [] then .down else .next }
  | .next => some { s with thread := if s.cannotRun then .leaving else .dequeue }
  | .dequeue =>
    match s.cmdQueue with
    | [] => some { s with thread := .down }
    | i :: queue => some { s with thread := .got i, cmdQueue := queue, taken := s.taken ++ [i] }
  | .got i => (s.calls[i]?).bind fun c => judge s i c
  | .exec i => (s.calls[i]?).bind fun c => execute s i c ret
  | .post i res => (s.calls[i]?).map fun c =>
      { s with thread := .finish i res, calls := s.calls.set i (rtwSctxDone c) }
  | .finish i res => (s.calls[i]?).bind fun c => postProcess s i c res
  | .leaving => some { s with thread := .draining, cmdthdRunning := false }
  | .draining =>
    match s.cmdQueue with
    | [] => some { s with thread := .gone }
    | i :: queue => some { s with thread := .drop i, cmdQueue := queue, taken := s.taken ++ [i] }
  | .drop i => (s.calls[i]?).bind fun c =>
      if c.obj.ExtraRead then
        let l := freePbuf c.obj c.ledger
        some { s with
          thread := .dropPost i
          calls := s.calls.set i { c with ledger := { l with dropped := l.dropped + 1 } } }
      else none
  | .dropPost i => (s.calls[i]?).map fun c =>
      { s with thread := .dropFree i, calls := s.calls.set i (rtwSctxDone c) }
  | .dropFree i => (s.calls[i]?).map fun c =>
      { s with
        thread := .draining
        calls := s.calls.set i { c with ledger := rtwFreeCmdObj c.obj c.ledger } }

/-- One step of the system. A read through a null pointer has no outcome. -/
def step (s : St) : Act → Option St
  | .hwInit b => some { s with hwInit := b }
  | .cannotRun b => some { s with cannotRun := b }
  | .call o => some (rtwEnqueueCmd s o)
  | .caller i => (s.calls[i]?).bind fun c => callerStep s i c
  | .timeout i => (s.calls[i]?).bind fun c => waiterTimeout s i c
  | .start =>
    if s.thread = .gone then some { s with thread := .down, cmdthdRunning := true } else none
  | .thread ret => rtwCmdThread s ret
  | .interrupt => if s.thread = .down then some { s with thread := .leaving } else none
  | .stop => some { s with cmdQueueSema := s.cmdQueueSema + 1 }

end Rtl88x2cu.Core.Cmd
