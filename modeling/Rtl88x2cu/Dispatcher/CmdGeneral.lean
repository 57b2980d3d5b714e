import Mathlib.Algebra.Order.Ring.Nat
import Mathlib.Logic.Function.Basic
import Rtl88x2cu.Dispatcher.Model
import Rtl88x2cu.Lib.Run

/-!
# General commands

`phl_cmd_enqueue` wraps a command in a `phl_cmd_obj` and sends it to the dispatcher as a message.
The thread of the dispatcher runs `_phl_cmd_complete` when it is done with the message, or cancels
it; the caller of a `PHL_CMD_WAIT` command waits for that, for some time at most
(`phl/phl_cmd_general.c`). The parameters of the command are freed by its callback, or by the caller
if the command was not sent; the caller here is `_phl_cmd_set_key` (`phl/phl_sec.c`), whose
parameters are three allocations.

Each access to what the two threads share is a step of its own, and a memory access outside the life
of an object is recorded as a fault. The dispatcher completes a message that it has accepted once,
and one that it has refused never.

`run_cmd_ok` is about every interleaving in which a waiter that is woken runs before the completion
stops polling for it.
-/

namespace Rtl88x2cu.Dispatcher.CmdGeneral

/-! ## Model -/

/-- `enum phl_cmd_type`. -/
inductive PhlCmdType where
  | noWait
  | wait
  | directly
  deriving DecidableEq, Repr

/-- `enum rtw_phl_status`, as far as these functions return it. -/
inductive PhlStatus where
  | success
  | failure
  | resource
  | pending
  | invalidParam
  | cmdTimeout
  | cmdError
  | cmdDrop
  | cmdCannotIo
  | cmdSuccess
  | unexpectedError
  deriving DecidableEq, Repr

/-- A status of `dispr_send_msg`. -/
def PhlStatus.ofSend : RtwPhlStatus → PhlStatus
  | .success => .success
  | .failure => .failure
  | .resource => .resource
  | .invalidParam => .invalidParam
  | .unexpectedError => .unexpectedError
  | .pending => .pending

/-- `is_cmd_enqueue`. -/
def isCmdEnqueue (psts : PhlStatus) : Bool :=
  psts = .cmdSuccess || psts = .cmdTimeout || psts = .cmdError || psts = .cmdDrop ||
    psts = .cmdCannotIo

/-- `enum phl_cmd_sts`. -/
inductive PhlCmdSts where
  | submitted
  | doneSuccess
  | doneTimeout
  | doneCmdError
  | doneCmdDrop
  | doneCannotIo
  | doneUnknown
  deriving DecidableEq, Repr

/-- `_cmd_stat_2_phl_stat`. -/
def cmdStat2PhlStat : PhlCmdSts → PhlStatus
  | .doneTimeout => .cmdTimeout
  | .doneCannotIo => .cmdCannotIo
  | .doneCmdError => .cmdError
  | .doneCmdDrop => .cmdDrop
  | _ => .cmdSuccess

/-- `_phl_cmd_chk_wating_status`. -/
def phlCmdChkWatingStatus (status : PhlCmdSts) : Bool :=
  status = .submitted || status = .doneUnknown

/-- How the dispatcher is done with a message: its indication bits in `_phl_cmd_complete`. -/
inductive Indication where
  | none
  | cannotIo
  | fail
  | cancel
  deriving DecidableEq, Repr

/-- The `csts` of `_phl_cmd_complete`. -/
def Indication.csts : Indication → PhlCmdSts
  | .none => .doneSuccess
  | .cannotIo => .doneCannotIo
  | .fail => .doneCmdError
  | .cancel => .doneCmdDrop

/-- The allocations: the `phl_cmd_obj`, the `cmd_sec_param`, and its `crypt` and `keybuf`. -/
inductive Obj where
  | cmd
  | param
  | crypt
  | keybuf
  deriving DecidableEq, Repr

/-- Who frees an object. -/
inductive Party where
  | caller
  | completion
  deriving DecidableEq, Repr

inductive Cell where
  | none
  | live
  | freed (by_ : Party)
  deriving DecidableEq, Repr

/-- Where the caller is in `_phl_cmd_set_key` and `phl_cmd_enqueue`. -/
inductive CallerPc where
  | start
  | allocParam
  | allocCrypt
  | allocKeybuf
  | enqueue
  | send
  /-- In `_os_event_wait`. -/
  | wait
  | timedOut
  | readStatus
  | incRef (psts : PhlStatus)
  /-- At `_phl_cmd_obj_free`, the message not having been sent. -/
  | freeCmd (psts : PhlStatus)
  /-- `phl_cmd_enqueue` has returned. -/
  | enqueued (psts : PhlStatus)
  | errorCmd (psts : PhlStatus)
  | errorKeyBuf (psts : PhlStatus)
  | errorCrypt (psts : PhlStatus)
  | returned (psts : PhlStatus)
  deriving DecidableEq, Repr

/-- Where the dispatcher is with the message. -/
inductive DisprPc where
  /-- It has not been sent. -/
  | notSent
  | queued
  /-- `_phl_cmd_complete` has been called. -/
  | complete (ind : Indication)
  /-- In `_phl_cmd_done`, the status having been set. -/
  | eventSet
  /-- At the call of `cmd_complete`. -/
  | callback
  | poll
  | freeObj
  | finished
  deriving DecidableEq, Repr

/-- The arguments of `_phl_cmd_set_key`; `keybuf` if it is not `NULL`. -/
structure Args where
  cmdType : PhlCmdType
  cmdTimeout : ℕ
  keybuf : Bool
  deriving DecidableEq, Repr

structure State where
  args : Args
  caller : CallerPc
  dispr : DisprPc
  isCmdWait : Bool
  refCnt : ℕ
  /-- `cmd_sync.sync.status`. -/
  status : PhlCmdSts
  /-- How often `cmd_sync.sync.done` is set. -/
  done : ℕ
  cell : Obj → Cell
  /-- An object has been used or freed that was not allocated. -/
  fault : Bool

def init (args : Args) : State where
  args := args
  caller := .start
  dispr := .notSent
  isCmdWait := false
  refCnt := 0
  status := .submitted
  done := 0
  cell := fun _ => .none
  fault := false

def State.alloc (s : State) (o : Obj) : State :=
  { s with cell := Function.update s.cell o .live }

/-- An access to an object. -/
def State.touch (s : State) (o : Obj) : State :=
  { s with fault := s.fault || decide (s.cell o ≠ .live) }

def State.free (s : State) (p : Party) (o : Obj) : State :=
  { s with
    fault := s.fault || decide (s.cell o ≠ .live)
    cell := Function.update s.cell o (.freed p) }

def State.callerAt (s : State) (pc : CallerPc) : State := { s with caller := pc }

def State.disprAt (s : State) (pc : DisprPc) : State := { s with dispr := pc }

inductive Event where
  /-- The caller calls `_phl_set_key` itself. -/
  | direct (psts : PhlStatus)
  /-- The next allocation of the caller. -/
  | alloc (ok : Bool)
  /-- `phl_disp_eng_send_msg` returns. -/
  | send (sts : RtwPhlStatus)
  /-- `_os_event_wait` returns, the event being set. -/
  | woken
  | timeout
  /-- The next step of the caller. -/
  | caller
  /-- The dispatcher has `phl_cmd_set_key_hdl` handle the command. -/
  | handle
  | complete (ind : Indication)
  /-- The next step of the completion. -/
  | completion
  /-- `ref_cnt` is read; `timeUp` if the time for polling it is over after that. -/
  | poll (timeUp : Bool)
  deriving DecidableEq, Repr

/-- `_phl_cmd_obj_free`. -/
def phlCmdObjFree (s : State) (p : Party) : State := (s.touch .cmd).free p .cmd

/-- `_phl_cmd_set_key_done`, and the end of `_phl_cmd_set_key` from `error_cmd` on. -/
def freeKeybuf (s : State) (p : Party) : State :=
  let s := s.touch .param
  if s.args.keybuf then (s.touch .crypt).free p .keybuf else s

/-- `_phl_cmd_set_key_done`. -/
def phlCmdSetKeyDone (s : State) : State :=
  (((freeKeybuf s .completion).touch .param).free .completion .crypt).free .completion .param

/-- The allocations of `_phl_cmd_set_key` and `phl_cmd_enqueue`. -/
def allocStep (s : State) (ok : Bool) : Option State :=
  match s.caller with
  | .allocParam =>
    some (if ok then (s.alloc .param).callerAt .allocCrypt else s.callerAt (.returned .resource))
  | .allocCrypt =>
    let s := s.touch .param
    some (if ok then
        (s.alloc .crypt).callerAt (if s.args.keybuf then .allocKeybuf else .enqueue)
      else s.callerAt (.errorCrypt .resource))
  | .allocKeybuf =>
    let s := (s.touch .param).touch .crypt
    some (if ok then (s.alloc .keybuf).callerAt .enqueue else s.callerAt (.errorKeyBuf .resource))
  | .enqueue =>
    some (if ok then
        { s.alloc .cmd with
          caller := .send
          isCmdWait := s.args.cmdType = .wait
          refCnt := 0
          status := .submitted
          done := 0 }
      else s.callerAt (.enqueued .resource))
  | _ => none

/-- `phl_cmd_enqueue` when the message has been sent or refused. -/
def sendStep (s : State) (sts : RtwPhlStatus) : Option State :=
  if s.caller = .send then
    if sts = .success then
      some ((s.disprAt .queued).callerAt
        (if s.args.cmdType = .wait then .wait else .enqueued .success))
    else some (s.callerAt (.freeCmd (.ofSend sts)))
  else none

/-- The other steps of the caller. -/
def callerStep (s : State) : Option State :=
  match s.caller with
  | .start => if s.args.cmdType = .directly then none else some (s.callerAt .allocParam)
  | .timedOut => some ({ s.touch .cmd with status := .doneTimeout }.callerAt .readStatus)
  | .readStatus => some ((s.touch .cmd).callerAt (.incRef (cmdStat2PhlStat s.status)))
  | .incRef psts => some ({ s.touch .cmd with refCnt := s.refCnt + 1 }.callerAt (.enqueued psts))
  | .freeCmd psts => some ((phlCmdObjFree s .caller).callerAt (.enqueued psts))
  | .enqueued psts =>
    some (s.callerAt
      (if !isCmdEnqueue psts && decide (psts ≠ .success) then .errorCmd psts else .returned psts))
  | .errorCmd psts => some ((freeKeybuf s .caller).callerAt (.errorKeyBuf psts))
  | .errorKeyBuf psts =>
    some (((s.touch .param).free .caller .crypt).callerAt (.errorCrypt psts))
  | .errorCrypt psts => some ((s.free .caller .param).callerAt (.returned psts))
  | _ => none

/-- The steps of `_phl_cmd_complete`. -/
def completionStep (s : State) : Option State :=
  match s.dispr with
  | .complete ind =>
    let s := s.touch .cmd
    some (if s.isCmdWait then
        { s with status := if phlCmdChkWatingStatus s.status then ind.csts else s.status }.disprAt
          .eventSet
      else s.disprAt .callback)
  | .eventSet => some ({ s.touch .cmd with done := s.done + 1 }.disprAt .callback)
  | .callback => some ((phlCmdSetKeyDone (s.touch .cmd)).disprAt .poll)
  | .freeObj => some ((phlCmdObjFree s .completion).disprAt .finished)
  | _ => none

/-- One step of the caller or of the dispatcher; `none` if it is not there. -/
def step (s : State) : Event → Option State
  | .direct psts =>
    if s.caller = .start ∧ s.args.cmdType = .directly then some (s.callerAt (.returned psts))
    else none
  | .alloc ok => allocStep s ok
  | .send sts => sendStep s sts
  | .woken =>
    if s.caller = .wait ∧ 0 < s.done then
      some ({ s.touch .cmd with done := s.done - 1 }.callerAt .readStatus)
    else none
  | .timeout =>
    if s.caller = .wait ∧ s.args.cmdTimeout ≠ 0 then some ((s.touch .cmd).callerAt .timedOut)
    else none
  | .caller => callerStep s
  | .handle =>
    if s.dispr = .queued then
      let s := ((s.touch .cmd).touch .param).touch .crypt
      some (if s.args.keybuf then s.touch .keybuf else s)
    else none
  | .complete ind =>
    if s.dispr = .queued then some ((s.touch .cmd).disprAt (.complete ind)) else none
  | .completion => completionStep s
  | .poll timeUp =>
    if s.dispr = .poll then
      let s := s.touch .cmd
      some (if !s.isCmdWait || s.refCnt = 1 || timeUp then s.disprAt .freeObj else s)
    else none

/-! ## Properties -/

/-- The caller is in `_phl_cmd_wait`, or has not counted its reference yet. -/
def CallerPc.waits : CallerPc → Bool
  | .wait | .timedOut | .readStatus | .incRef _ => true
  | _ => false

/-- Both sides are done with the command. -/
def State.Finished (s : State) : Prop :=
  (∃ psts, s.caller = .returned psts) ∧ (s.dispr = .notSent ∨ s.dispr = .finished)

/-- The command has been accepted by the dispatcher. -/
def State.accepted (s : State) : Bool := s.dispr ≠ .notSent

/-- **Assumption.** When the time for polling is over, the waiter, which has been woken before the
polling began, has run. -/
def WaiterRuns (s : State) : Event → Prop
  | .poll timeUp => timeUp = true → s.caller.waits = false
  | _ => True

instance (s : State) (e : Event) : Decidable (WaiterRuns s e) :=
  match e with
  | .poll _ => inferInstanceAs (Decidable (_ → _))
  | .direct _ | .alloc _ | .send _ | .woken | .timeout | .caller | .handle | .complete _
  | .completion => isTrue trivial

/-! ## Who has which objects -/

/-- The parameters of the command. -/
def params (keybuf : Bool) : List Obj :=
    if keybuf then [.keybuf, .crypt, .param] else [.crypt, .param]

/-- The objects of the caller, as long as the command has not been accepted. -/
def callerHolds (keybuf : Bool) : CallerPc → List Obj
  | .allocCrypt | .errorCrypt _ => [.param]
  | .allocKeybuf | .errorKeyBuf _ => [.crypt, .param]
  | .enqueue | .enqueued _ | .errorCmd _ => params keybuf
  | .send | .freeCmd _ => .cmd :: params keybuf
  | _ => []

/-- The objects of the dispatcher. -/
def disprHolds (keybuf : Bool) : DisprPc → List Obj
  | .queued | .complete _ | .eventSet | .callback => params keybuf ++ [.cmd]
  | .poll | .freeObj => [.cmd]
  | _ => []

/-- The objects in `l` are live, and the others, as far as they have been allocated, have been freed
by `p`. -/
structure Owned (l : List Obj) (p : Party) (s : State) : Prop where
  fault : s.fault = false
  live : ∀ o, s.cell o = .live ↔ o ∈ l
  freed : ∀ o q, s.cell o = .freed q → q = p

variable {s s' : State} {args : Args} {l : List Obj} {p : Party} {o : Obj}

theorem Owned.cell_eq (h : Owned l p s) (ho : o ∈ l) : s.cell o = .live := (h.live o).2 ho

@[simp] theorem owned_callerAt (pc : CallerPc) : Owned l p (s.callerAt pc) ↔ Owned l p s :=
  ⟨fun h => ⟨h.fault, h.live, h.freed⟩, fun h => ⟨h.fault, h.live, h.freed⟩⟩

@[simp] theorem owned_disprAt (pc : DisprPc) : Owned l p (s.disprAt pc) ↔ Owned l p s :=
  ⟨fun h => ⟨h.fault, h.live, h.freed⟩, fun h => ⟨h.fault, h.live, h.freed⟩⟩

/-- An access to an object that is live changes nothing. -/
theorem Owned.touch (h : Owned l p s) (ho : o ∈ l) : s.touch o = s := by
  simp [State.touch, h.cell_eq ho]

theorem Owned.alloc (h : Owned l p s) (o : Obj) : Owned (o :: l) p (s.alloc o) where
  fault := h.fault
  live o' := by
    by_cases heq : o' = o
    · simp [State.alloc, heq]
    · simp [State.alloc, heq, h.live o']
  freed o' q hq := by
    by_cases heq : o' = o
    · simp [State.alloc, heq] at hq
    · exact h.freed o' q (by simpa [State.alloc, heq] using hq)

theorem Owned.free (h : Owned (o :: l) p s) (ho : o ∉ l) : Owned l p (s.free p o) where
  fault := by simp [State.free, h.fault, h.cell_eq List.mem_cons_self]
  live o' := by
    by_cases heq : o' = o
    · simp [State.free, heq, ho]
    · simp [State.free, heq, h.live o']
  freed o' q hq := by
    by_cases heq : o' = o
    · simpa [State.free, heq, eq_comm] using hq
    · exact h.freed o' q (by simpa [State.free, heq] using hq)

/-- `_phl_cmd_obj_free` by the one who has the `phl_cmd_obj`. -/
theorem Owned.phlCmdObjFree (h : Owned (.cmd :: l) p s) (hl : .cmd ∉ l) :
    Owned l p (phlCmdObjFree s p) := by
  rw [CmdGeneral.phlCmdObjFree, h.touch List.mem_cons_self]
  exact h.free hl

theorem freeKeybuf_frame (s : State) (p : Party) :
    freeKeybuf s p = { s with cell := (freeKeybuf s p).cell, fault := (freeKeybuf s p).fault } := by
  simp only [freeKeybuf]
  split <;> rfl

theorem free_cell_ne_none (h : s.cell o ≠ .none) (p : Party) (o' : Obj) :
    (s.free p o').cell o ≠ .none := by
  by_cases heq : o = o'
  · simp [State.free, heq]
  · simpa [State.free, heq] using h

theorem freeKeybuf_cell_ne_none (h : s.cell o ≠ .none) (p : Party) :
    (freeKeybuf s p).cell o ≠ .none := by
  simp only [freeKeybuf]
  split
  · exact free_cell_ne_none (by exact h) p .keybuf
  · exact h

/-- The `keybuf` is freed if there is one. -/
theorem Owned.freeKeybuf (h : Owned (params s.args.keybuf ++ l) p s) (hl : .keybuf ∉ l) :
    Owned (.crypt :: .param :: l) p (freeKeybuf s p) := by
  cases hbuf : s.args.keybuf with
  | false =>
    rw [hbuf] at h
    rw [CmdGeneral.freeKeybuf, h.touch (o := .param) (by simp [params]), hbuf]
    exact h
  | true =>
    rw [hbuf] at h
    rw [CmdGeneral.freeKeybuf, h.touch (by simp [params]), hbuf, if_pos rfl,
      h.touch (by simp [params])]
    exact Owned.free h (by simpa using hl)

/-! ## The two phases of a command -/

/-- The statuses with which `_phl_cmd_set_key` frees the parameters. -/
def PhlStatus.refused (psts : PhlStatus) : Bool := !isCmdEnqueue psts && decide (psts ≠ .success)

/-- Where the caller can be while the command has not been accepted. -/
def CallerPc.early : CallerPc → Bool
  | .freeCmd psts | .enqueued psts | .errorCmd psts => psts.refused
  | pc => !pc.waits

/-- Where the caller is before it frees anything. -/
def CallerPc.builds : CallerPc → Bool
  | .start | .allocParam | .allocCrypt | .allocKeybuf | .enqueue | .send => true
  | _ => false

/-- Where the caller can be once the command has been accepted. -/
def CallerPc.late : CallerPc → Bool
  | .incRef psts | .enqueued psts => !psts.refused
  | .returned _ => true
  | pc => pc.waits

/-- The completion is past `_phl_cmd_done`. -/
def DisprPc.signalled : DisprPc → Bool
  | .callback | .poll | .freeObj | .finished => true
  | _ => false

/-- The completion is past the polling. -/
def DisprPc.polled : DisprPc → Bool
  | .freeObj | .finished => true
  | _ => false

/-- The dispatcher has not accepted the command. -/
structure Preparing (s : State) : Prop where
  notSent : s.dispr = .notSent
  early : s.caller.early = true
  /-- The `phl_cmd_obj` is filled in. -/
  ready : s.caller = .send → s.isCmdWait = decide (s.args.cmdType = .wait) ∧ s.refCnt = 0
  keybuf : s.caller = .allocKeybuf → s.args.keybuf = true
  owned : Owned (callerHolds s.args.keybuf s.caller) .caller s
  fresh : s.caller.builds = true → ∀ o q, s.cell o ≠ .freed q

/-- The dispatcher has accepted the command. -/
structure Shared (s : State) : Prop where
  sent : s.dispr ≠ .notSent
  late : s.caller.late = true
  isCmdWait : s.isCmdWait = decide (s.args.cmdType = .wait)
  waits : s.caller.waits = true → s.args.cmdType = .wait
  refCnt : s.args.cmdType = .wait → s.refCnt = if s.caller.waits then 0 else 1
  polled : s.dispr.polled = true → s.caller.waits = false
  signalled : s.dispr.signalled = true → s.caller = .wait → 0 < s.done
  owned : Owned (disprHolds s.args.keybuf s.dispr) .completion s
  used : ∀ o ∈ .cmd :: params s.args.keybuf, s.cell o ≠ .none

/-- The command belongs to one side at a time. -/
def Inv (s : State) : Prop := Preparing s ∨ Shared s

theorem inv_init (args : Args) : Inv (init args) :=
  .inl
    { notSent := rfl
      early := rfl
      ready := nofun
      keybuf := nofun
      owned := ⟨rfl, by simp [init, callerHolds], nofun⟩
      fresh := by simp [init] }

/-- The caller moves on without the command being filled in. -/
theorem Preparing.callerAt (h : Preparing s) {pc : CallerPc} (hearly : pc.early = true)
    (hsend : pc ≠ .send) (hbuf : pc = .allocKeybuf → s.args.keybuf = true)
    (hbuilds : pc.builds = true → s.caller.builds = true)
    (howned : Owned (callerHolds s.args.keybuf pc) .caller s) : Preparing (s.callerAt pc) where
  notSent := h.notSent
  early := hearly
  ready := fun heq => absurd heq hsend
  keybuf := hbuf
  owned := (owned_callerAt pc).2 howned
  fresh := fun hpc => h.fresh (hbuilds hpc)

/-- The caller moves on after having freed something. -/
theorem Preparing.cleanUp (h : Preparing s) (t : State) (hargs : t.args = s.args)
    (hdispr : t.dispr = s.dispr) {pc : CallerPc} (hearly : pc.early = true)
    (hbuilds : pc.builds = false) (howned : Owned (callerHolds s.args.keybuf pc) .caller t) :
    Preparing (t.callerAt pc) where
  notSent := hdispr.trans h.notSent
  early := hearly
  ready := by
    rintro rfl
    contradiction
  keybuf := by
    rintro rfl
    contradiction
  owned := (owned_callerAt pc).2 (hargs ▸ howned)
  fresh := fun hpc => absurd hpc (by simp [State.callerAt, hbuilds])

/-- The caller has allocated `o`. -/
theorem Preparing.alloc (h : Preparing s) (o : Obj) {pc : CallerPc} (hearly : pc.early = true)
    (hsend : pc ≠ .send) (hbuf : pc = .allocKeybuf → s.args.keybuf = true)
    (hbuilds : s.caller.builds = true)
    (howned : callerHolds s.args.keybuf pc = o :: callerHolds s.args.keybuf s.caller) :
    Preparing ((s.alloc o).callerAt pc) where
  notSent := h.notSent
  early := hearly
  ready := fun heq => absurd heq hsend
  keybuf := hbuf
  owned := by
    rw [owned_callerAt]
    exact howned ▸ h.owned.alloc o
  fresh := fun _ o' q hq => by
    by_cases heq : o' = o
    · simp [State.callerAt, State.alloc, heq] at hq
    · exact h.fresh hbuilds o' q (by simpa [State.callerAt, State.alloc, heq] using hq)

theorem Preparing.allocStep (h : Preparing s) {ok : Bool} (hs : allocStep s ok = some s') :
    Preparing s' := by
  have howned := h.owned
  cases hpc : s.caller <;> simp only [CmdGeneral.allocStep, hpc] at hs <;> try contradiction
  all_goals rw [hpc] at howned
  case allocParam =>
    obtain rfl := Option.some.inj hs
    cases ok with
    | false => exact h.callerAt rfl (by simp) (by simp) (by simp [CallerPc.builds]) howned
    | true =>
      refine h.alloc .param rfl (by simp) (by simp) (by simp [hpc, CallerPc.builds]) ?_
      rw [hpc]
      rfl
  case allocCrypt =>
    rw [howned.touch (by simp [callerHolds])] at hs
    obtain rfl := Option.some.inj hs
    cases ok with
    | false => exact h.callerAt rfl (by simp) (by simp) (by simp [CallerPc.builds]) howned
    | true =>
      cases hbuf : s.args.keybuf with
      | false =>
        refine h.alloc .crypt rfl (by simp) (by simp) (by simp [hpc, CallerPc.builds]) ?_
        simp [hpc, callerHolds, params, hbuf]
      | true =>
        refine h.alloc .crypt rfl (by simp) (by simp [hbuf]) (by simp [hpc, CallerPc.builds]) ?_
        rw [hpc]
        rfl
  case allocKeybuf =>
    rw [howned.touch (by simp [callerHolds]), howned.touch (by simp [callerHolds])] at hs
    obtain rfl := Option.some.inj hs
    cases ok with
    | false => exact h.callerAt rfl (by simp) (by simp) (by simp [CallerPc.builds]) howned
    | true =>
      refine h.alloc .keybuf rfl (by simp) (by simp) (by simp [hpc, CallerPc.builds]) ?_
      simp [hpc, callerHolds, params, h.keybuf hpc]
  case enqueue =>
    obtain rfl := Option.some.inj hs
    cases ok with
    | false => exact h.callerAt rfl (by simp) (by simp) (by simp [CallerPc.builds]) howned
    | true =>
      have halloc := howned.alloc .cmd
      exact
        { notSent := h.notSent
          early := rfl
          ready := fun _ => ⟨rfl, rfl⟩
          keybuf := nofun
          owned := ⟨halloc.fault, halloc.live, halloc.freed⟩
          fresh := fun _ o' q hq => by
            by_cases heq : o' = .cmd
            · simp [State.alloc, heq] at hq
            · exact h.fresh (by rw [hpc]; rfl) o' q (by simpa [State.alloc, heq] using hq) }

theorem refused_ofSend {sts : RtwPhlStatus} (h : sts ≠ .success) :
    (PhlStatus.ofSend sts).refused = true := by
  cases sts <;> first | rfl | contradiction

/-- The objects pass to the dispatcher with the message, or stay with the caller. -/
theorem Preparing.sendStep (h : Preparing s) {sts : RtwPhlStatus}
    (hs : sendStep s sts = some s') : Inv s' := by
  obtain ⟨hpc, hs⟩ := Option.ite_none_right_eq_some.mp hs
  have howned := h.owned
  rw [hpc] at howned
  split at hs
  · obtain rfl := Option.some.inj hs
    obtain ⟨hwait, hzero⟩ := h.ready hpc
    have hlive : ∀ o ∈ .cmd :: params s.args.keybuf, s.cell o = .live := fun o ho =>
      (howned.live o).2 ho
    refine .inr
      { sent := by simp [State.disprAt, State.callerAt]
        late := ?late
        isCmdWait := hwait
        waits := ?waits
        refCnt := ?refCnt
        polled := nofun
        signalled := nofun
        owned := ?owned
        used := fun o ho => by simpa [State.disprAt, State.callerAt] using by simp [hlive o ho] }
    case late =>
      simp only [State.callerAt]
      split_ifs <;> rfl
    case waits =>
      intro hwaits
      by_contra hty
      simp [State.callerAt, show s.args.cmdType ≠ .wait from hty, CallerPc.waits] at hwaits
    case refCnt =>
      intro hty
      simp [State.disprAt, State.callerAt, hzero, CallerPc.waits,
        show s.args.cmdType = .wait from hty]
    case owned =>
      rw [owned_callerAt, owned_disprAt]
      -- The memory does not change; nothing has been freed that the completion could not have
      -- freed.
      refine ⟨h.owned.fault, fun o => ?_, fun o q hq => ?_⟩
      · rw [howned.live o]
        simp [State.disprAt, State.callerAt, callerHolds, disprHolds, or_comm]
      · exact absurd hq (h.fresh (by rw [hpc]; rfl) o q)
  · next hne =>
    obtain rfl := Option.some.inj hs
    exact .inl (h.callerAt (refused_ofSend hne) (by simp) (by simp)
      (by simp [CallerPc.builds]) howned)

theorem Preparing.callerStep (h : Preparing s) (hs : callerStep s = some s') : Preparing s' := by
  have howned := h.owned
  have hearly := h.early
  cases hpc : s.caller <;> simp only [CmdGeneral.callerStep, hpc] at hs <;> try contradiction
  all_goals rw [hpc] at howned hearly
  case start =>
    obtain ⟨-, hs⟩ := Option.ite_none_left_eq_some.mp hs
    obtain rfl := Option.some.inj hs
    exact h.callerAt rfl (by simp) (by simp) (by simp [hpc, CallerPc.builds]) howned
  case timedOut | readStatus | incRef => contradiction
  case freeCmd psts =>
    obtain rfl := Option.some.inj hs
    have hfree := howned.phlCmdObjFree (by cases s.args.keybuf <;> decide)
    exact h.cleanUp (phlCmdObjFree s .caller) rfl rfl hearly rfl hfree
  case enqueued psts =>
    obtain rfl := Option.some.inj hs
    rw [show (!isCmdEnqueue psts && decide (psts ≠ .success)) = true from hearly, if_pos rfl]
    exact h.callerAt hearly (by simp) (by simp) (by simp [CallerPc.builds]) howned
  case errorCmd psts =>
    obtain rfl := Option.some.inj hs
    refine h.cleanUp (freeKeybuf s .caller) (by rw [freeKeybuf_frame]) (by rw [freeKeybuf_frame])
      rfl rfl ?_
    exact Owned.freeKeybuf (by simpa [callerHolds] using howned) (by simp)
  case errorKeyBuf psts =>
    obtain rfl := Option.some.inj hs
    rw [howned.touch (by simp [callerHolds])]
    exact h.cleanUp (s.free .caller .crypt) rfl rfl rfl rfl (howned.free (by simp))
  case errorCrypt psts =>
    obtain rfl := Option.some.inj hs
    exact h.cleanUp (s.free .caller .param) rfl rfl rfl rfl (howned.free (by simp))

/-! ### After the command has been accepted -/

theorem Shared.cmd_mem (h : Shared s) (hpc : s.dispr ≠ .finished) :
    .cmd ∈ disprHolds s.args.keybuf s.dispr := by
  have hsent := h.sent
  cases hd : s.dispr <;> simp_all [disprHolds]

/-- The `phl_cmd_obj` is there as long as the caller waits. -/
theorem Shared.touch_of_waits (h : Shared s) (hpc : s.caller.waits = true) : s.touch .cmd = s := by
  refine h.owned.touch (h.cmd_mem fun hd => ?_)
  have hpolled := h.polled (by rw [hd]; rfl)
  simp [hpc] at hpolled

/-- A step of the caller leaves the memory, and what the dispatcher goes by, as they are. -/
theorem Shared.callerAt (h : Shared s) {t : State} {pc : CallerPc} (hargs : t.args = s.args)
    (hdispr : t.dispr = s.dispr) (hwait : t.isCmdWait = s.isCmdWait) (hcell : t.cell = s.cell)
    (hfault : t.fault = s.fault) (hlate : pc.late = true) (hpc : pc ≠ .wait)
    (hwaits : pc.waits = true → s.caller.waits = true)
    (href : s.args.cmdType = .wait → t.refCnt = if pc.waits then 0 else 1) :
    Shared (t.callerAt pc) where
  sent := hdispr ▸ h.sent
  late := hlate
  isCmdWait := by
    have heq := hwait.trans h.isCmdWait
    rw [← hargs] at heq
    exact heq
  waits := fun hw => by
    rw [show (t.callerAt pc).args = s.args from hargs]
    exact h.waits (hwaits hw)
  refCnt := fun hty => href (hargs ▸ hty)
  polled := fun hpolled => by
    by_contra hne
    have hw : pc.waits = true := by simpa [State.callerAt] using hne
    have hfalse := h.polled (hdispr ▸ hpolled)
    simp [hwaits hw] at hfalse
  signalled := fun _ heq => absurd heq hpc
  owned := by
    rw [owned_callerAt]
    have howned := h.owned
    rw [← hargs, ← hdispr] at howned
    exact ⟨hfault ▸ howned.fault, hcell ▸ howned.live, hcell ▸ howned.freed⟩
  used := by
    rw [show (t.callerAt pc).cell = s.cell from hcell,
      show (t.callerAt pc).args = s.args from hargs]
    exact h.used

theorem refused_cmdStat2PhlStat (status : PhlCmdSts) :
    (cmdStat2PhlStat status).refused = false := by
  cases status <;> rfl

theorem Shared.refCnt_eq_zero (h : Shared s) (hpc : s.caller.waits = true) : s.refCnt = 0 := by
  rw [h.refCnt (h.waits hpc), if_pos hpc]

theorem Shared.woken (h : Shared s) (hs : step s .woken = some s') : Shared s' := by
  obtain ⟨⟨hpc, -⟩, hs⟩ := Option.ite_none_right_eq_some.mp hs
  have hwaits : s.caller.waits = true := by rw [hpc]; rfl
  rw [h.touch_of_waits hwaits] at hs
  obtain rfl := Option.some.inj hs
  exact h.callerAt rfl rfl rfl rfl rfl rfl (by simp) (fun _ => hwaits)
    (fun _ => h.refCnt_eq_zero hwaits)

theorem Shared.timeout (h : Shared s) (hs : step s .timeout = some s') : Shared s' := by
  obtain ⟨⟨hpc, -⟩, hs⟩ := Option.ite_none_right_eq_some.mp hs
  have hwaits : s.caller.waits = true := by rw [hpc]; rfl
  rw [h.touch_of_waits hwaits] at hs
  obtain rfl := Option.some.inj hs
  exact h.callerAt rfl rfl rfl rfl rfl rfl (by simp) (fun _ => hwaits)
    (fun _ => h.refCnt_eq_zero hwaits)

theorem Shared.callerStep (h : Shared s) (hs : callerStep s = some s') : Shared s' := by
  have hlate := h.late
  cases hpc : s.caller <;> simp only [CmdGeneral.callerStep, hpc] at hs <;> try contradiction
  all_goals rw [hpc] at hlate
  case start | freeCmd | errorCmd | errorKeyBuf | errorCrypt => contradiction
  case timedOut =>
    have hwaits : s.caller.waits = true := by rw [hpc]; rfl
    rw [h.touch_of_waits hwaits] at hs
    obtain rfl := Option.some.inj hs
    exact h.callerAt rfl rfl rfl rfl rfl rfl (by simp) (fun _ => hwaits)
      (fun _ => h.refCnt_eq_zero hwaits)
  case readStatus =>
    have hwaits : s.caller.waits = true := by rw [hpc]; rfl
    rw [h.touch_of_waits hwaits] at hs
    obtain rfl := Option.some.inj hs
    refine h.callerAt rfl rfl rfl rfl rfl ?_ (by simp) (fun _ => hwaits)
      (fun _ => h.refCnt_eq_zero hwaits)
    simp [CallerPc.late, refused_cmdStat2PhlStat]
  case incRef psts =>
    have hwaits : s.caller.waits = true := by rw [hpc]; rfl
    rw [h.touch_of_waits hwaits] at hs
    obtain rfl := Option.some.inj hs
    refine h.callerAt rfl rfl rfl rfl rfl hlate (by simp) (by simp [CallerPc.waits]) (fun _ => ?_)
    simp [h.refCnt_eq_zero hwaits, CallerPc.waits]
  case enqueued psts =>
    obtain rfl := Option.some.inj hs
    have hrefused : psts.refused = false := by simpa [CallerPc.late] using hlate
    rw [show (!isCmdEnqueue psts && decide (psts ≠ .success)) = false from hrefused,
      if_neg (by decide)]
    refine h.callerAt rfl rfl rfl rfl rfl rfl (by simp) (by simp [CallerPc.waits]) (fun hty => ?_)
    simp [h.refCnt hty, hpc, CallerPc.waits]

/-- A step of the dispatcher leaves what the caller goes by as it is. -/
theorem Shared.disprAt (h : Shared s) {t : State} {pc : DisprPc} (hargs : t.args = s.args)
    (hcaller : t.caller = s.caller) (hwait : t.isCmdWait = s.isCmdWait)
    (href : t.refCnt = s.refCnt) (hsent : pc ≠ .notSent)
    (hpolled : pc.polled = true → s.caller.waits = false)
    (hsignalled : pc.signalled = true → s.caller = .wait → 0 < t.done)
    (howned : Owned (disprHolds s.args.keybuf pc) .completion t)
    (hused : ∀ o, s.cell o ≠ .none → t.cell o ≠ .none) : Shared (t.disprAt pc) where
  sent := hsent
  late := by
    have hlate := h.late
    rw [← hcaller] at hlate
    exact hlate
  isCmdWait := by
    have heq := hwait.trans h.isCmdWait
    rw [← hargs] at heq
    exact heq
  waits := by
    have hwaits := h.waits
    rw [← hcaller, ← hargs] at hwaits
    exact hwaits
  refCnt := by
    have hcnt := h.refCnt
    rw [← hcaller, ← hargs, ← href] at hcnt
    exact hcnt
  polled := by
    rw [← hcaller] at hpolled
    exact hpolled
  signalled := by
    rw [← hcaller] at hsignalled
    exact hsignalled
  owned := by
    rw [← hargs] at howned
    exact (owned_disprAt pc).2 howned
  used := fun o ho => hused o (h.used o (hargs ▸ ho))

theorem phlCmdSetKeyDone_frame (s : State) :
    phlCmdSetKeyDone s =
      { s with cell := (phlCmdSetKeyDone s).cell, fault := (phlCmdSetKeyDone s).fault } := by
  rw [phlCmdSetKeyDone, freeKeybuf_frame]
  rfl

theorem phlCmdSetKeyDone_cell_ne_none (h : s.cell o ≠ .none) :
    (phlCmdSetKeyDone s).cell o ≠ .none :=
  free_cell_ne_none (free_cell_ne_none (by exact freeKeybuf_cell_ne_none h _) _ _) _ _

/-- `_phl_cmd_set_key_done` frees the parameters and nothing else. -/
theorem Owned.phlCmdSetKeyDone (h : Owned (params s.args.keybuf ++ l) .completion s)
    (hl : .keybuf ∉ l ∧ .crypt ∉ l ∧ .param ∉ l) : Owned l .completion (phlCmdSetKeyDone s) := by
  have hbuf := h.freeKeybuf hl.1
  rw [CmdGeneral.phlCmdSetKeyDone, hbuf.touch (o := .param) (by simp)]
  exact (hbuf.free (by simpa using hl.2.1)).free hl.2.2

theorem Shared.handle (h : Shared s) (hs : step s .handle = some s') : Shared s' := by
  obtain ⟨hpc, hs⟩ := Option.ite_none_right_eq_some.mp hs
  have howned := h.owned
  rw [hpc] at howned
  rw [h.owned.touch (h.cmd_mem (by simp [hpc])),
    howned.touch (o := .param) (by cases s.args.keybuf <;> decide),
    howned.touch (o := .crypt) (by cases s.args.keybuf <;> decide)] at hs
  obtain rfl := Option.some.inj hs
  split
  · next hbuf => rwa [howned.touch (o := .keybuf) (by rw [hbuf]; decide)]
  · exact h

theorem Shared.complete (h : Shared s) {ind : Indication}
    (hs : step s (.complete ind) = some s') : Shared s' := by
  obtain ⟨hpc, hs⟩ := Option.ite_none_right_eq_some.mp hs
  have howned := h.owned
  rw [hpc] at howned
  rw [h.owned.touch (h.cmd_mem (by simp [hpc]))] at hs
  obtain rfl := Option.some.inj hs
  exact h.disprAt rfl rfl rfl rfl (by simp) nofun nofun howned (fun _ => id)

theorem Shared.completionStep (h : Shared s) (hs : completionStep s = some s') : Shared s' := by
  have howned := h.owned
  cases hpc : s.dispr <;> simp only [CmdGeneral.completionStep, hpc] at hs <;> try contradiction
  all_goals rw [hpc] at howned
  case complete ind =>
    rw [h.owned.touch (h.cmd_mem (by simp [hpc]))] at hs
    obtain rfl := Option.some.inj hs
    split
    · exact h.disprAt rfl rfl rfl rfl (by simp) nofun nofun
        ⟨howned.fault, howned.live, howned.freed⟩ (fun _ => id)
    · next hwait =>
      -- A caller that does not wait needs no event.
      refine h.disprAt rfl rfl rfl rfl (by simp) nofun (fun _ hcaller => ?_) howned (fun _ => id)
      have hty := h.waits (by rw [hcaller]; rfl)
      simp [h.isCmdWait, hty] at hwait
  case eventSet =>
    rw [h.owned.touch (h.cmd_mem (by simp [hpc]))] at hs
    obtain rfl := Option.some.inj hs
    exact h.disprAt rfl rfl rfl rfl (by simp) nofun (by simp)
      ⟨howned.fault, howned.live, howned.freed⟩ (fun _ => id)
  case callback =>
    rw [h.owned.touch (h.cmd_mem (by simp [hpc]))] at hs
    obtain rfl := Option.some.inj hs
    have hframe := phlCmdSetKeyDone_frame s
    refine h.disprAt (by rw [hframe]) (by rw [hframe]) (by rw [hframe]) (by rw [hframe]) (by simp)
      nofun (fun _ hcaller => ?_) (howned.phlCmdSetKeyDone (by simp))
      (fun o => phlCmdSetKeyDone_cell_ne_none)
    rw [hframe]
    exact h.signalled (by rw [hpc]; rfl) hcaller
  case freeObj =>
    obtain rfl := Option.some.inj hs
    refine h.disprAt rfl rfl rfl rfl (by simp) (fun _ => h.polled (by rw [hpc]; rfl))
      (fun _ => h.signalled (by rw [hpc]; rfl)) (howned.phlCmdObjFree (by simp)) (fun o ho => ?_)
    exact free_cell_ne_none (by exact ho) _ _

theorem Shared.poll (h : Shared s) {timeUp : Bool} (hok : WaiterRuns s (.poll timeUp))
    (hs : step s (.poll timeUp) = some s') : Shared s' := by
  obtain ⟨hpc, hs⟩ := Option.ite_none_right_eq_some.mp hs
  rw [h.owned.touch (h.cmd_mem (by simp [hpc]))] at hs
  obtain rfl := Option.some.inj hs
  split
  · next hleave =>
    have howned := h.owned
    rw [hpc] at howned
    have hdone : s.caller.waits = false := by
      by_contra hne
      have hwaits : s.caller.waits = true := by simpa using hne
      -- The waiter has not counted its reference: only the time can be over.
      have hup : timeUp = true := by
        simpa [h.isCmdWait, h.waits hwaits, h.refCnt_eq_zero hwaits] using hleave
      exact hne (hok hup)
    exact h.disprAt rfl rfl rfl rfl (by simp) (fun _ => hdone)
      (fun _ => h.signalled (by rw [hpc]; rfl)) howned (fun _ => id)
  · exact h

theorem Shared.alloc_eq_none (h : Shared s) (ok : Bool) : allocStep s ok = none := by
  have hlate := h.late
  cases hpc : s.caller <;> simp_all [allocStep, CallerPc.late, CallerPc.waits]

theorem Inv.step (h : Inv s) {e : Event} (hok : WaiterRuns s e) (hs : step s e = some s') :
    Inv s' := by
  obtain h | h := h
  · cases e with
    | direct psts =>
      obtain ⟨⟨hpc, -⟩, hs⟩ := Option.ite_none_right_eq_some.mp hs
      obtain rfl := Option.some.inj hs
      have howned := h.owned
      rw [hpc] at howned
      exact .inl (h.callerAt rfl (by simp) (by simp) (by simp [CallerPc.builds]) howned)
    | alloc ok => exact .inl (h.allocStep hs)
    | send sts => exact h.sendStep hs
    | caller => exact .inl (h.callerStep hs)
    | woken | timeout =>
      obtain ⟨⟨hpc, -⟩, -⟩ := Option.ite_none_right_eq_some.mp hs
      have hearly := h.early
      rw [hpc] at hearly
      contradiction
    | handle | complete | poll => simp [CmdGeneral.step, h.notSent] at hs
    | completion => simp [CmdGeneral.step, CmdGeneral.completionStep, h.notSent] at hs
  · cases e with
    | direct psts =>
      obtain ⟨⟨hpc, -⟩, -⟩ := Option.ite_none_right_eq_some.mp hs
      have hlate := h.late
      rw [hpc] at hlate
      contradiction
    | alloc ok => simp [CmdGeneral.step, h.alloc_eq_none] at hs
    | send sts =>
      obtain ⟨hpc, -⟩ := Option.ite_none_right_eq_some.mp hs
      have hlate := h.late
      rw [hpc] at hlate
      contradiction
    | woken => exact .inr (h.woken hs)
    | timeout => exact .inr (h.timeout hs)
    | caller => exact .inr (h.callerStep hs)
    | handle => exact .inr (h.handle hs)
    | complete ind => exact .inr (h.complete hs)
    | completion => exact .inr (h.completionStep hs)
    | poll timeUp => exact .inr (h.poll hok hs)

/-! ## The end of a command -/

/-- How far the caller is from its return. -/
def CallerPc.rank : CallerPc → ℕ
  | .start => 11
  | .allocParam => 10
  | .allocCrypt => 9
  | .allocKeybuf => 8
  | .enqueue | .wait | .timedOut => 7
  | .send | .readStatus => 6
  | .incRef _ | .freeCmd _ => 5
  | .enqueued _ => 4
  | .errorCmd _ => 3
  | .errorKeyBuf _ => 2
  | .errorCrypt _ => 1
  | .returned _ => 0

/-- How far the dispatcher is from the end of the completion. -/
def DisprPc.rank : DisprPc → ℕ
  | .queued => 6
  | .complete _ => 5
  | .eventSet => 4
  | .callback => 3
  | .poll => 2
  | .freeObj => 1
  | .notSent | .finished => 0

def State.rank (s : State) : ℕ := s.caller.rank + s.dispr.rank

/-- A caller that does not wait has a step to take. -/
theorem caller_progress (hwait : s.caller ≠ .wait) (hret : ∀ psts, s.caller ≠ .returned psts) :
    ∃ e s', step s e = some s' ∧ WaiterRuns s e ∧ s'.rank < s.rank := by
  have hmove (e : Event) (t : State) (pc : CallerPc) (hs : step s e = some (t.callerAt pc))
      (hok : WaiterRuns s e) (hd : t.dispr = s.dispr) (hlt : pc.rank < s.caller.rank) :
      ∃ e s', step s e = some s' ∧ WaiterRuns s e ∧ s'.rank < s.rank := by
    refine ⟨e, _, hs, hok, ?_⟩
    simpa [State.rank, State.callerAt, hd] using hlt
  cases hpc : s.caller <;> rw [hpc] at hmove
  case wait => contradiction
  case returned psts => exact absurd hpc (hret psts)
  case start =>
    by_cases hty : s.args.cmdType = .directly
    · exact hmove (.direct .success) s (.returned .success) (if_pos ⟨hpc, hty⟩) trivial rfl
        (by decide)
    · exact hmove .caller s .allocParam (by simp [step, callerStep, hpc, hty]) trivial rfl
        (by decide)
  -- Where something can fail it does.
  case allocParam =>
    exact hmove (.alloc false) s (.returned .resource) (by simp [step, allocStep, hpc]) trivial rfl
      (by decide)
  case allocCrypt =>
    exact hmove (.alloc false) (s.touch .param) (.errorCrypt .resource)
      (by simp [step, allocStep, hpc]) trivial rfl (by decide)
  case allocKeybuf =>
    exact hmove (.alloc false) ((s.touch .param).touch .crypt) (.errorKeyBuf .resource)
      (by simp [step, allocStep, hpc]) trivial rfl (by decide)
  case enqueue =>
    exact hmove (.alloc false) s (.enqueued .resource) (by simp [step, allocStep, hpc]) trivial rfl
      (by decide)
  case send =>
    exact hmove (.send .failure) s (.freeCmd .failure)
      (by simp [step, sendStep, hpc, PhlStatus.ofSend]) trivial rfl (by decide)
  case timedOut =>
    exact hmove .caller { s.touch .cmd with status := .doneTimeout } .readStatus
      (by simp [step, callerStep, hpc]) trivial rfl (by decide)
  case readStatus =>
    exact hmove .caller (s.touch .cmd) (.incRef (cmdStat2PhlStat s.status))
      (by simp [step, callerStep, hpc]) trivial rfl (Nat.lt_succ_self _)
  case incRef psts =>
    exact hmove .caller { s.touch .cmd with refCnt := s.refCnt + 1 } (.enqueued psts)
      (by simp [step, callerStep, hpc]) trivial rfl (Nat.lt_succ_self _)
  case freeCmd psts =>
    exact hmove .caller (phlCmdObjFree s .caller) (.enqueued psts)
      (by simp [step, callerStep, hpc]) trivial rfl (Nat.lt_succ_self _)
  case enqueued psts =>
    refine hmove .caller s (if psts.refused then .errorCmd psts else .returned psts)
      (by simp only [step, callerStep, hpc]; rfl) trivial rfl ?_
    split
    · exact Nat.lt_succ_self _
    · exact Nat.succ_pos _
  case errorCmd psts =>
    exact hmove .caller (freeKeybuf s .caller) (.errorKeyBuf psts)
      (by simp [step, callerStep, hpc]) trivial (by rw [freeKeybuf_frame]) (Nat.lt_succ_self _)
  case errorKeyBuf psts =>
    exact hmove .caller ((s.touch .param).free .caller .crypt) (.errorCrypt psts)
      (by simp [step, callerStep, hpc]) trivial rfl (Nat.lt_succ_self _)
  case errorCrypt psts =>
    exact hmove .caller (s.free .caller .param) (.returned psts)
      (by simp [step, callerStep, hpc]) trivial rfl (Nat.lt_succ_self _)

/-- Before it is past the polling, the completion of an accepted command goes on. -/
theorem Shared.completion_progress (h : Shared s) (hpc : s.dispr ≠ .finished)
    (hpoll : s.dispr = .poll → s.caller.waits = false) :
    ∃ e s', step s e = some s' ∧ WaiterRuns s e ∧ s'.rank < s.rank := by
  have hmove (e : Event) (t : State) (pc : DisprPc) (hs : step s e = some (t.disprAt pc))
      (hok : WaiterRuns s e) (hc : t.caller = s.caller) (hlt : pc.rank < s.dispr.rank) :
      ∃ e s', step s e = some s' ∧ WaiterRuns s e ∧ s'.rank < s.rank := by
    refine ⟨e, _, hs, hok, ?_⟩
    simpa [State.rank, State.disprAt, hc] using hlt
  have hsent := h.sent
  cases hd : s.dispr <;> rw [hd] at hmove hsent
  case notSent | finished => contradiction
  case queued =>
    exact hmove (.complete .none) (s.touch .cmd) (.complete .none) (by simp [step, hd]) trivial rfl
      (by decide)
  case complete ind =>
    cases hwait : s.isCmdWait
    · exact hmove .completion (s.touch .cmd) .callback
        (by simp [step, CmdGeneral.completionStep, hd, State.touch, hwait]) trivial rfl
        (show 3 < 5 by decide)
    · exact hmove .completion
        { s.touch .cmd with
          status := if phlCmdChkWatingStatus s.status then ind.csts else s.status }
        .eventSet (by simp [step, CmdGeneral.completionStep, hd, State.touch, hwait]) trivial rfl
        (show 4 < 5 by decide)
  case eventSet =>
    exact hmove .completion { s.touch .cmd with done := s.done + 1 } .callback
      (by simp [step, CmdGeneral.completionStep, hd, State.touch]) trivial rfl (by decide)
  case callback =>
    exact hmove .completion (CmdGeneral.phlCmdSetKeyDone (s.touch .cmd)) .poll
      (by simp [step, CmdGeneral.completionStep, hd]) trivial
      (by rw [phlCmdSetKeyDone_frame]; rfl) (by decide)
  case poll =>
    refine hmove (.poll false) (s.touch .cmd) .freeObj ?_ (by simp [WaiterRuns]) rfl (by decide)
    -- The reference of a caller that has waited is counted.
    have hleave : (!s.isCmdWait || decide (s.refCnt = 1)) = true := by
      have href := h.refCnt
      rw [hpoll hd] at href
      by_cases hty : s.args.cmdType = .wait
      · simp [href hty]
      · simp [h.isCmdWait, hty]
    have hs : step s (.poll false) =
        some (if !s.isCmdWait || decide (s.refCnt = 1) || false then (s.touch .cmd).disprAt .freeObj
          else s.touch .cmd) := if_pos hd
    rw [hs, hleave]
    rfl
  case freeObj =>
    exact hmove .completion (CmdGeneral.phlCmdObjFree s .completion) .finished
      (by simp [step, CmdGeneral.completionStep, hd]) trivial rfl (by decide)
/-- A command that both sides are not done with goes on. -/
theorem Inv.progress (h : Inv s) (hfin : ¬ s.Finished) :
    ∃ e s', CmdGeneral.step s e = some s' ∧ WaiterRuns s e ∧ Inv s' ∧ s'.rank < s.rank := by
  suffices hnext : ∃ e s', CmdGeneral.step s e = some s' ∧ WaiterRuns s e ∧ s'.rank < s.rank by
    obtain ⟨e, s', hs, hok, hlt⟩ := hnext
    exact ⟨e, s', hs, hok, h.step hok hs, hlt⟩
  obtain h | h := h
  · have hwait : s.caller ≠ .wait := fun hpc => by
      have hearly := h.early
      rw [hpc] at hearly
      contradiction
    exact caller_progress hwait fun psts hpc => hfin ⟨⟨psts, hpc⟩, .inl h.notSent⟩
  · by_cases hwait : s.caller = .wait
    · by_cases hpoll : s.dispr.signalled = true
      · have hdone := h.signalled hpoll hwait
        refine ⟨.woken, _, if_pos ⟨hwait, hdone⟩, trivial, ?_⟩
        simp [State.rank, State.callerAt, State.touch, hwait, CallerPc.rank]
      · exact h.completion_progress (by rintro hd; simp [hd, DisprPc.signalled] at hpoll)
          (fun hd => by simp [hd, DisprPc.signalled] at hpoll)
    · by_cases hret : ∃ psts, s.caller = .returned psts
      · obtain ⟨psts, hpc⟩ := hret
        exact h.completion_progress (fun hd => hfin ⟨⟨psts, hpc⟩, .inr hd⟩)
          (fun _ => by rw [hpc]; rfl)
      · exact caller_progress hwait fun psts hpc => hret ⟨psts, hpc⟩

/-! ## Every run -/

theorem inv_run {es : List Event} (hrun : run step (init args) es = some s)
    (hok : Guarded step WaiterRuns (init args) es) : Inv s :=
  run_preserves Inv (fun _ _ _ h hoke hs => h.step hoke hs) (inv_init args) hok hrun

theorem Inv.fault (h : Inv s) : s.fault = false := by
  obtain h | h := h
  · exact h.owned.fault
  · exact h.owned.fault

theorem Inv.freed_iff (h : Inv s) {p : Party} (ho : s.cell o = .freed p) :
    p = .completion ↔ s.accepted = true := by
  obtain h | h := h
  · obtain rfl := h.owned.freed o p ho
    simp [State.accepted, h.notSent]
  · obtain rfl := h.owned.freed o p ho
    simpa [State.accepted] using h.sent

theorem Inv.not_live (h : Inv s) (hfin : s.Finished) (o : Obj) : s.cell o ≠ .live := by
  obtain ⟨⟨psts, hcaller⟩, hdispr⟩ := hfin
  intro hlive
  obtain h | h := h
  · have hmem := (h.owned.live o).mp hlive
    simp [hcaller, callerHolds] at hmem
  · have hmem := (h.owned.live o).mp hlive
    obtain hd | hd := hdispr
    · exact h.sent hd
    · simp [hd, disprHolds] at hmem

theorem Inv.freed_of_accepted (h : Inv s) (hfin : s.Finished) (hacc : s.accepted = true)
    (ho : o ∈ .cmd :: params s.args.keybuf) : s.cell o = .freed .completion := by
  obtain h' | h' := id h
  · simp [State.accepted, h'.notSent] at hacc
  · cases hcell : s.cell o with
    | none => exact absurd hcell (h'.used o ho)
    | live => exact absurd hcell (h.not_live hfin o)
    | freed p => rw [(h.freed_iff hcell).mpr hacc]

/-- However the caller, its time limit and the dispatcher are interleaved: no object is used or
freed that is not there; the `phl_cmd_obj` and the parameters are freed by the completion iff the
command has been accepted, else by the caller; when both sides are done none of them is left, and
both sides can always come to their end. -/
theorem run_cmd_ok {es : List Event} (hrun : run step (init args) es = some s)
    (hok : Guarded step WaiterRuns (init args) es) :
    s.fault = false ∧
      (∀ o p, s.cell o = .freed p → (p = .completion ↔ s.accepted = true)) ∧
      (s.Finished → (∀ o, s.cell o ≠ .live) ∧
        (s.accepted = true →
          ∀ o ∈ .cmd :: params s.args.keybuf, s.cell o = .freed .completion)) ∧
      ∃ es' t, run step s es' = some t ∧ Guarded step WaiterRuns s es' ∧ t.Finished := by
  have hinv := inv_run hrun hok
  refine ⟨hinv.fault, fun o p ho => hinv.freed_iff ho, fun hfin => ?_, ?_⟩
  · exact ⟨hinv.not_live hfin, fun hacc o ho => hinv.freed_of_accepted hfin hacc ho⟩
  · exact exists_run_of_rank Inv State.rank State.Finished (fun _ h hfin => h.progress hfin) s hinv

/-- The wait for a key command times out while the completion is under way. -/
def timeoutRun : List Event :=
  [.caller, .alloc true, .alloc true, .alloc true, .alloc true, .send .success, .handle,
    .complete .none, .timeout, .completion, .completion, .caller, .completion, .poll false, .caller,
    .caller, .poll false, .completion, .caller]

def timeoutArgs : Args where
  cmdType := .wait
  cmdTimeout := 500
  keybuf := true

/-- The state after `timeoutRun`. -/
def timeoutEnd : State := (run step (init timeoutArgs) timeoutRun).getD (init timeoutArgs)

theorem run_cmd_ok_timeoutRun :
    timeoutEnd.caller = .returned .cmdTimeout ∧ timeoutEnd.fault = false ∧
      ∀ o, timeoutEnd.cell o = .freed .completion := by
  have hrun : run step (init timeoutArgs) timeoutRun = some timeoutEnd := rfl
  obtain ⟨hfault, -, hfin, -⟩ := run_cmd_ok hrun (by decide)
  obtain ⟨-, hfreed⟩ := hfin ⟨⟨.cmdTimeout, rfl⟩, .inr rfl⟩
  refine ⟨rfl, hfault, fun o => hfreed rfl o ?_⟩
  cases o <;> decide

end Rtl88x2cu.Dispatcher.CmdGeneral
