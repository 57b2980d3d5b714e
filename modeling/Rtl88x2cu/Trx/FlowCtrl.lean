import Rtl88x2cu.Lib.Grouped
import Rtl88x2cu.Trx.UsbTx

/-!
# The rings of a transmit round

The transmit handler looks for rings with waiting requests (`phl_check_xmit_ring_resource`), takes a
ring status from a pool for each of them and collects these in the plans of the stations.
`phl_tx_flow_ctrl` moves them to `t_fctrl_result`, from which the handler serves them
(`phl/phl_tx.c`, `_phl_tx_callback_usb` of `phl/hci/phl_trx_usb.c`).

A round is one step here: the core may add requests while the handler is at work, but a ring is
looked at once, when the status is taken, and a ring list that is deregistered meanwhile is freed at
the end of the round. What becomes of the requests of a served ring is the subject of
`Rtl88x2cu.Trx.UsbTx`.
-/

namespace Rtl88x2cu.Trx.FlowCtrl

open UsbTx (RingId TxRing)

/-! ## State -/

/-- `MAX_PHL_RING_STATUS_NUMBER`. -/
def maxPhlRingStatusNumber : ℕ := 64

/-- `RTW_PHL_RING_CAT_MGNT`. -/
def ringCatMgnt : Fin 10 := 8

/-- `RTW_PHL_RING_CAT_HIQ`. -/
def ringCatHiq : Fin 10 := 9

/-- `struct phl_ring_status`. -/
structure RingStatus where
  /-- Its place in the pool. -/
  id : ℕ
  macid : ℕ
  reqBusy : ℕ
  /-- `ring_ptr`. -/
  ring : RingId
  deriving DecidableEq, Repr

/-- `struct phl_tx_plan`. -/
structure TxPlan where
  sleep : Bool := false
  hasMgnt : Bool := false
  hasHiq : Bool := false
  sortedRing : List RingStatus := []

/-- A station's `struct rtw_phl_tring_list` is known by its address. -/
structure State where
  ring : RingId → TxRing
  macid : ℕ → ℕ
  tRingList : List ℕ
  txPlan : ℕ → TxPlan
  /-- `ring_sts_pool->idle`. -/
  idle : List ℕ
  staList : List ℕ
  tFctrlResult : List RingStatus

def init : State where
  ring := fun _ => { entry := fun _ => none, coreIdx := 0, phlIdx := 0, phlNextIdx := 0 }
  macid := fun _ => 0
  tRingList := []
  txPlan := fun _ => {}
  idle := List.range maxPhlRingStatusNumber
  staList := []
  tFctrlResult := []

/-! ## The pool -/

/-- `phl_alloc_ring_sts`. -/
def phlAllocRingSts (s : State) : Option (ℕ × State) :=
  match s.idle with
  | [] => none
  | id :: idle => some (id, { s with idle })

/-- `phl_release_ring_sts`. -/
def phlReleaseRingSts (s : State) (sts : RingStatus) : State :=
  { s with idle := s.idle ++ [sts.id] }

/-! ## Collecting the rings -/

/-- The number of waiting requests. -/
def avail (ring : TxRing) : ℕ :=
  phlCalcAvailRptr (toU16 ring.phlIdx) ring.coreIdx maxPhlRingEntryNum

/-- `_phl_check_ring_status`. -/
def checkRingStatus (s : State) (k : RingId) (macid : ℕ) : Option RingStatus × State :=
  if avail (s.ring k) = 0 then (none, s)
  else match phlAllocRingSts s with
    | none => (none, s)
    | some (id, s) =>
      (some ⟨id, macid, avail (s.ring k), k⟩,
        { s with
          ring := Function.update s.ring k
            { s.ring k with phlNextIdx := nextPtr (toU16 (s.ring k).phlIdx) } })

/-- `_phl_sort_ring_by_tid`. -/
def sortRingByTid (sts : RingStatus) (plan : TxPlan) (cat : Fin 10) : TxPlan :=
  if sts.ring.tid = 1 then { plan with sortedRing := plan.sortedRing ++ [sts] }
  else if sts.ring.tid = 2 then
    match plan.sortedRing.getLast? with
    | none => { plan with sortedRing := [sts] }
    | some last =>
      if last.ring.tid = 1 then
        { plan with sortedRing := plan.sortedRing.dropLast ++ [sts, last] }
      else { plan with sortedRing := plan.sortedRing ++ [sts] }
  else
    let plan := { plan with sortedRing := sts :: plan.sortedRing }
    if cat = ringCatMgnt then { plan with hasMgnt := true }
    else if cat = ringCatHiq then { plan with hasHiq := true }
    else plan

/-- The body of the loop of `_phl_check_tring_list`. -/
def checkRing (a : ℕ) (s : State) (i : Fin 10) : State :=
  match checkRingStatus s ⟨a, i⟩ (s.macid a) with
  | (none, s) => s
  | (some sts, s) =>
    { s with txPlan := Function.update s.txPlan a (sortRingByTid sts (s.txPlan a) i) }

/-- `_phl_check_tring_list`. -/
def checkTringList (s : State) (a : ℕ) : State :=
  let s := (List.finRange 10).foldl (checkRing a) s
  if (s.txPlan a).sortedRing = [] then s else { s with staList := s.staList ++ [a] }

/-- `phl_check_xmit_ring_resource`. -/
def phlCheckXmitRingResource (s : State) : State := s.tRingList.foldl checkTringList s

/-! ## `phl_tx_flow_ctrl` -/

/-- `_phl_reset_tx_plan`. -/
def resetTxPlan (s : State) (a : ℕ) : State :=
  let s' := (s.txPlan a).sortedRing.foldl phlReleaseRingSts s
  { s' with txPlan := Function.update s'.txPlan a {} }

/-- The first entry of `sorted_ring` goes to the head of `t_fctrl_result`. The list is not empty
when one of the flags is set (`Planned`). -/
def toFront : List RingStatus × List RingStatus → List RingStatus × List RingStatus
  | ([], result) => ([], result)
  | (sts :: rest, result) => (rest, sts :: result)

/-- The body of the inner loop; `tid_entry` has the last ring status of each tid. -/
def addByTid (r : List RingStatus × (Fin 10 → Option ℕ)) (sts : RingStatus) :
    List RingStatus × (Fin 10 → Option ℕ) :=
  (match r.2 sts.ring.tid with
    | none => r.1 ++ [sts]
    | some id => insertAfter (fun sts' => sts'.id = id) sts r.1,
   Function.update r.2 sts.ring.tid (some sts.id))

/-- The rings of a station that does not sleep: the new `t_fctrl_result` and `tid_entry`. -/
def movePlan (plan : TxPlan) (result : List RingStatus) (tidEntry : Fin 10 → Option ℕ) :
    List RingStatus × (Fin 10 → Option ℕ) :=
  let p := (plan.sortedRing, result)
  let p := if plan.hasHiq then toFront p else p
  let p := if plan.hasMgnt then toFront p else p
  p.1.foldl addByTid (p.2, tidEntry)

/-- The body of the outer loop. -/
def flowCtrlSta (r : State × (Fin 10 → Option ℕ)) (a : ℕ) : State × (Fin 10 → Option ℕ) :=
  let plan := r.1.txPlan a
  if plan.sleep then
    (resetTxPlan { r.1 with staList := r.1.staList.erase a } a, r.2)
  else
    let moved := movePlan plan r.1.tFctrlResult r.2
    (resetTxPlan { r.1 with
      staList := r.1.staList.erase a
      tFctrlResult := moved.1
      txPlan := Function.update r.1.txPlan a { plan with sortedRing := [] } } a, moved.2)

/-- `phl_tx_flow_ctrl`. -/
def phlTxFlowCtrl (s : State) : State := (s.staList.foldl flowCtrlSta (s, fun _ => none)).1

/-! ## The round -/

/-- The handler takes the next ring from `t_fctrl_result`. Its status is given back by
`_phl_tx_flow_ctrl_usb` if there is no buffer, else at the end of `_phl_handle_xmit_ring_usb`. -/
def serveRing (s : State) : State :=
  match s.tFctrlResult with
  | [] => s
  | sts :: rest => phlReleaseRingSts { s with tFctrlResult := rest } sts

/-- `_phl_tx_callback_usb`. -/
def txCallbackUsb (s : State) : State :=
  let s := phlCheckXmitRingResource s
  if s.staList = [] then s
  else
    let s := phlTxFlowCtrl s
    serveRing^[s.tFctrlResult.length] s

inductive Event where
  | callback
  /-- The core or the handler changes a ring. -/
  | setRing (k : RingId) (ring : TxRing)
  | setSleep (a : ℕ) (sleep : Bool)
  /-- `phl_register_tx_ring`; `a` is the address it gets. -/
  | register (a macid : ℕ)
  /-- `phl_deregister_tx_ring`. -/
  | deregister (macid : ℕ)

def step (s : State) : Event → Option State
  | .callback => some (txCallbackUsb s)
  | .setRing k ring => some { s with ring := Function.update s.ring k ring }
  | .setSleep a sleep =>
    some { s with txPlan := Function.update s.txPlan a { s.txPlan a with sleep } }
  | .register a macid =>
    if a ∈ s.tRingList then none
    else some { s with
      ring := fun k => if k.ringList = a then init.ring k else s.ring k
      macid := Function.update s.macid a macid
      tRingList := s.tRingList ++ [a]
      txPlan := Function.update s.txPlan a {} }
  | .deregister macid =>
    some { s with tRingList := s.tRingList.eraseP fun a => s.macid a = macid }

end Rtl88x2cu.Trx.FlowCtrl
