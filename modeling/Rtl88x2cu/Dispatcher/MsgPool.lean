import Mathlib.Algebra.Order.Ring.Nat
import Mathlib.Data.Fintype.Basic
import Mathlib.Logic.Function.Basic
import Rtl88x2cu.Dispatcher.Msg
import Rtl88x2cu.Lib.Places
import Rtl88x2cu.PhlQueue

/-!
# Command dispatcher: the message pool

The pool of message slots and its three queues, with the operations of
`phl/phl_cmd_dispatcher.c` that move a slot from one place to another. A slot that is in none of
the queues is in the hands of the dispatcher thread.

The last fields of `MsgPool` do not exist in the driver. They record what the statements about
the dispatcher talk about: which slot the thread has in hand and whether its completion routine
was called, the number of the send that filled a slot, the history of all sends, whether a message
was pended, and the request (slot and number) in whose abort its owner sent it.

`MsgPool.Parted` says that every slot is in exactly one place.
-/

namespace Rtl88x2cu.Dispatcher

/-- An index into `msg_ex_pool`, which has `MAX_PHL_MSG_NUM` entries. -/
abbrev MsgSlot : Type := Fin 24

/-- `MSG_EVT_MAX`. -/
def msgEvtMax : ℕ := 0x7fff

/-- What happens to a message that was sent. Sends are numbered. -/
inductive MsgEvent where
  /-- The send was accepted, in this slot and with or without a completion routine. -/
  | accepted (n : ℕ) (slot : MsgSlot) (completion : Bool)
  /-- The send was refused after a slot had been taken for it. -/
  | refused (n : ℕ)
  /-- The completion routine was called. -/
  | fired (n : ℕ)
  /-- The slot went back to the idle queue. -/
  | recycled (n : ℕ)
  deriving DecidableEq, Repr

/-- `msg_ex_pool`, its queues, and the pending events of `mdl_info`. -/
structure MsgPool where
  pool : MsgSlot → MsgEx
  idleQ : PhlQueue MsgSlot
  waitQ : PhlQueue MsgSlot
  pendQ : PhlQueue MsgSlot
  pendingEvt : ℕ → ℕ
  hand : Option MsgSlot
  notified : Bool
  stamp : MsgSlot → ℕ
  clock : ℕ
  log : List MsgEvent
  everPended : MsgSlot → Bool
  inAbort : MsgSlot → Option (ℕ × ℕ)

/-- `init_dispr_msg_pool`. -/
def initDisprMsgPool : MsgPool where
  pool _ := {}
  idleQ := (List.finRange 24).foldl pqPush pqInit
  waitQ := pqInit
  pendQ := pqInit
  pendingEvt _ := msgEvtMax
  hand := none
  notified := false
  stamp _ := 0
  clock := 0
  log := []
  everPended _ := false
  inAbort _ := none

namespace MsgPool

/-- Write a slot. -/
def set (p : MsgPool) (i : MsgSlot) (m : MsgEx) : MsgPool :=
  { p with pool := Function.update p.pool i m }

/-- Change a slot. -/
def edit (p : MsgPool) (i : MsgSlot) (f : MsgEx → MsgEx) : MsgPool := p.set i (f (p.pool i))

/-- Add to the history. -/
def record (p : MsgPool) (e : MsgEvent) : MsgPool := { p with log := p.log ++ [e] }

/-- `IS_DISPR_CTRL` of the module that sent the message in a slot. -/
def isCtrl (p : MsgPool) (i : MsgSlot) : Bool := isDisprCtrl (p.pool i).id.mdlId

/-! ## Operations on the queues -/

/-- `pop_front_idle_msg`: the slot is cleared. -/
def popFrontIdleMsg (p : MsgPool) : Option (MsgSlot × MsgPool) :=
  (pqPop p.idleQ).map fun x => (x.1, { p with idleQ := x.2 }.set x.1 {})

/-- The end of `push_back_idle_msg`, after the notifications. -/
def putIdle (p : MsgPool) (i : MsgSlot) : MsgPool :=
  let id := (p.pool i).id
  { p with
    pool := Function.update p.pool i { p.pool i with status := {}, id := {} }
    pendingEvt :=
      if p.pendingEvt id.mdlId = id.evtId then Function.update p.pendingEvt id.mdlId msgEvtMax
      else p.pendingEvt
    idleQ := pqPush p.idleQ i }

/-- `pop_front_wait_msg`, by the dispatcher thread. -/
def popFrontWaitMsg (p : MsgPool) : Option (MsgSlot × MsgPool) :=
  (pqPop p.waitQ).map fun x =>
    (x.1, { p with waitQ := x.2, hand := some x.1, notified := false }.edit x.1 MsgEx.popped)

/-- `push_back_wait_msg`. -/
def pushBackWaitMsg (p : MsgPool) (i : MsgSlot) : MsgPool :=
  { p.edit i MsgEx.queued with waitQ := pqPush p.waitQ i }

/-- `is_higher_priority`. -/
def isHigherPriority (p : MsgPool) (input obj : MsgSlot) : Bool := p.isCtrl input && !p.isCtrl obj

/-- `insert_msg_by_priority`. -/
def insertMsgByPriority (p : MsgPool) (i : MsgSlot) : MsgPool :=
  { p.edit i MsgEx.queued with waitQ := pqInsert p.waitQ p.isHigherPriority i }

/-- `push_back_pending_msg`. -/
def pushBackPendingMsg (p : MsgPool) (i : MsgSlot) : MsgPool :=
  let m := p.pool i
  { p.edit i MsgEx.queued with
    pendingEvt :=
      if m.status.clrSndrMsgIfPending then Function.update p.pendingEvt m.id.mdlId m.id.evtId
      else p.pendingEvt
    pendQ := pqPush p.pendQ i
    everPended := Function.update p.everPended i true }

/-- The body of the loop of `clear_pending_msg`. The class of the message is looked up in its
event id, not in its module id. -/
def requeuePending (p : MsgPool) (i : MsgSlot) : MsgPool :=
  if isDisprCtrl (p.pool i).id.evtId then p.insertMsgByPriority i else p.pushBackWaitMsg i

/-- The loop `while (pop_front_pending_msg(obj, &ex))`, with the given body, for at most `n`
iterations. -/
def drainPending (body : MsgPool → MsgSlot → MsgPool) : ℕ → MsgPool → MsgPool
  | 0, p => p
  | n + 1, p =>
    match pqPop p.pendQ with
    | none => p
    | some (i, q) => drainPending body n (body { p with pendQ := q } i)

/-- The loop of `clear_pending_msg`. Each iteration shortens the pending queue. -/
def clearPending (p : MsgPool) : MsgPool := drainPending requeuePending p.pendQ.queue.length p

/-- The first inner loop of `clear_waiting_msg`. -/
def unpendAll (p : MsgPool) : MsgPool := drainPending pushBackWaitMsg p.pendQ.queue.length p

/-- `cancel_msg`. -/
def cancelMsg (p : MsgPool) (i : MsgSlot) : MsgPool :=
  p.edit i fun m => { m with
    premap := ∅
    postmap := ∅
    status := { m.status with cancel := true } }

/-- The queues count their nodes right. -/
structure QueuesWf (p : MsgPool) : Prop where
  idle : p.idleQ.Wf
  wait : p.waitQ.Wf
  pend : p.pendQ.Wf

/-- Every slot is in exactly one place: the idle, the wait or the pending queue, or the hands of
the thread. -/
def Parted (p : MsgPool) : Prop :=
  Placed (List.finRange 24) p.idleQ.queue p.waitQ.queue p.pendQ.queue p.hand.toList

end MsgPool

end Rtl88x2cu.Dispatcher
