import Mathlib.Algebra.BigOperators.Pi
import Mathlib.Algebra.Order.Ring.Nat
import Mathlib.Data.Fintype.BigOperators
import Rtl88x2cu.Lib.Run
import Rtl88x2cu.RxReorder.Conservation

/-!
# RX reordering: ownership of packets over the life of the stations

The RX path of the driver with all its stations: `phl_rx_reorder` with every early exit,
expiries of the reorder timer, block-ack requests, and the start, stop and removal of sessions.
Each event is one critical section under `tid_rx_lock`, so that a run of events is an arbitrary
interleaving of the callers.

`RxPath.places i` counts where the packet `i` is: delivered, recycled, or in a slot of a session.
The main result `run_places_iff` says that it equals the number of times `i` was handed to
`phl_rx_reorder`, at every point of every run, exactly as long as `rtw_phl_start_rx_ba_session`
and `rtw_phl_rx_bar` are called with TIDs for which `sta->tid_rx` has an entry. Unlike
`phl_rx_reorder` and `rtw_phl_stop_rx_ba_session` these two do not check the TID.
-/

namespace Rtl88x2cu.RxReorder

variable {ι ρ : Type}

/-! ## Packets and stations -/

/-- The fields of `rtw_r_meta_data` that `phl_rx_reorder` reads. -/
structure RxMeta where
  tid : UInt8
  seq : UInt16
  bc : Bool
  mc : Bool
  qos : Bool
  qNull : Bool
  moreFrag : Bool
  fragNum : UInt8
  amsduCut : Bool
  lastMsdu : Bool
  addrCamVld : Bool
  macid : UInt16
  macAddr : List UInt8
  ta : List UInt8

/-- `struct rtw_phl_rx_pkt`: the buffer `id`, its metadata, the length of `pkt_list[0]`, and the
station and role found for it. -/
structure RxPkt (ι ρ : Type) where
  id : ℕ
  mdata : RxMeta
  length : ℕ
  txSta : Option ι
  rxRole : Option ρ

/-- The sequence number of a packet. -/
def RxPkt.seq (pkt : RxPkt ι ρ) : ℕ := pkt.mdata.seq.toNat

/-- The station and role tables as one call finds them. -/
structure Lookup (ι ρ : Type) where
  /-- `rtw_phl_get_stainfo_by_macid`. -/
  stainfoByMacid : UInt16 → Option ι
  /-- `sta->wrole`. -/
  wrole : ι → Option ρ
  /-- `phl_get_wrole_by_addr`. -/
  wroleByAddr : List UInt8 → Option ρ
  /-- `rtw_phl_get_stainfo_by_addr`. -/
  stainfoByAddr : ρ → List UInt8 → Option ι

/-- The search for the transmitter: by MAC ID if the address CAM matched and the station has a
role, else by address. -/
def Lookup.findSta (lk : Lookup ι ρ) (mdata : RxMeta) : Option ι :=
  let sta := if mdata.addrCamVld then lk.stainfoByMacid mdata.macid else none
  match sta.filter fun s => (lk.wrole s).isSome with
  | some s => some s
  | none => (lk.wroleByAddr mdata.macAddr).bind fun wrole => lk.stainfoByAddr wrole mdata.ta

/-- Whether the FCS is still to be cut off: only the last MSDU of a cut A-MSDU has one. -/
def RxMeta.hasFcs (mdata : RxMeta) (appendFcs : Bool) : Bool :=
  appendFcs && !(mdata.amsduCut && !mdata.lastMsdu)

/-- Cut the FCS off, if there is one. -/
def RxPkt.removeFcs (pkt : RxPkt ι ρ) (appendFcs : Bool) : RxPkt ι ρ :=
  if pkt.mdata.hasFcs appendFcs then { pkt with length := pkt.length - 4 } else pkt

@[simp]
theorem RxPkt.removeFcs_id (pkt : RxPkt ι ρ) (appendFcs : Bool) :
    (pkt.removeFcs appendFcs).id = pkt.id := by
  unfold RxPkt.removeFcs
  split <;> rfl

/-- Frames that are never reordered: broadcast, multicast, non-QoS, QoS null and fragments. -/
def RxMeta.dontReorder (mdata : RxMeta) : Bool :=
  mdata.bc || mdata.mc || !mdata.qos || mdata.qNull || mdata.moreFrag || mdata.fragNum != 0

/-- The RX path: `tid_rx` of every station, the pending reorder timers, and what became of the
packets. `handed` records the packets handed to `phl_rx_reorder`. -/
structure RxPath (ι ρ : Type) where
  tidRx : ι × Fin 8 → Option (TidAmpduRx (RxPkt ι ρ))
  timer : ι → Bool
  delivered : List (RxPkt ι ρ)
  recycled : List (RxPkt ι ρ)
  handed : List ℕ

/-- No session, no packet. -/
def RxPath.empty (ι ρ : Type) : RxPath ι ρ where
  tidRx := fun _ => none
  timer := fun _ => false
  delivered := []
  recycled := []
  handed := []

/-- The context a call works on when it has locked the session `r` of `sta`. -/
def RxPath.enter (st : RxPath ι ρ) (sta : ι) (r : TidAmpduRx (RxPkt ι ρ)) :
    RxCtx (RxPkt ι ρ) where
  r := r
  frames := st.delivered
  recycled := st.recycled
  timer := st.timer sta

section Steps

variable [DecidableEq ι]

/-- The state when the call returns. -/
def RxPath.leave (st : RxPath ι ρ) (k : ι × Fin 8) (c : RxCtx (RxPkt ι ρ)) : RxPath ι ρ :=
  { st with
    tidRx := Function.update st.tidRx k (some c.r)
    timer := Function.update st.timer k.1 c.timer
    delivered := c.frames
    recycled := c.recycled }

/-- Replacing one session by a well-formed one, or by none, keeps all sessions well formed. -/
theorem wf_update {f : ι × Fin 8 → Option (TidAmpduRx (RxPkt ι ρ))}
    (h : ∀ k r, f k = some r → r.Wf) (k : ι × Fin 8) {r : Option (TidAmpduRx (RxPkt ι ρ))}
    (hr : ∀ r', r = some r' → r'.Wf) : ∀ k' r', Function.update f k r k' = some r' → r'.Wf := by
  intro k' r' hk'
  by_cases heq : k' = k
  · rw [heq, Function.update_self] at hk'
    exact hr r' hk'
  · rw [Function.update_of_ne heq] at hk'
    exact h k' r' hk'

theorem RxPath.leave_tidRx (st : RxPath ι ρ) (k : ι × Fin 8) (c : RxCtx (RxPkt ι ρ)) :
    (st.leave k c).tidRx = Function.update st.tidRx k (some c.r) := rfl

/-! ## `phl_rx_reorder` -/

/-- The label `dont_reorder`. -/
def RxPath.deliver (st : RxPath ι ρ) (pkt : RxPkt ι ρ) : RxPath ι ρ :=
  { st with delivered := st.delivered ++ [pkt] }

/-- The label `drop_frame`. -/
def RxPath.dropFrame (st : RxPath ι ρ) (pkt : RxPkt ι ρ) : RxPath ι ρ :=
  { st with recycled := st.recycled ++ [pkt] }

/-- `phl_rx_reorder` once the transmitter `sta` is known. -/
def rxReorderSta (st : RxPath ι ρ) (sta : ι) (pkt : RxPkt ι ρ) (now now' : ℕ) :
    Option (RxPath ι ρ) :=
  if h : pkt.mdata.tid.toNat < 8 then
    let k : ι × Fin 8 := (sta, ⟨pkt.mdata.tid.toNat, h⟩)
    match st.tidRx k with
    | none => some (st.deliver pkt)
    | some r => do
      let (c, kept) ← phlManageStaReorderBuf RxPkt.seq (st.enter sta r) pkt now now'
      let st' := st.leave k c
      some (if kept then st' else st'.deliver pkt)
  else
    some (st.dropFrame pkt)

/-- `phl_rx_reorder`. -/
def phlRxReorder (lk : Lookup ι ρ) (appendFcs : Bool) (st : RxPath ι ρ) (pkt : RxPkt ι ρ)
    (now now' : ℕ) : Option (RxPath ι ρ) :=
  if pkt.mdata.hasFcs appendFcs ∧ pkt.length ≤ 4 then
    some (st.dropFrame pkt)
  else
    let pkt := pkt.removeFcs appendFcs
    if pkt.mdata.dontReorder then
      some (st.deliver pkt)
    else
      match lk.findSta pkt.mdata with
      | none => some (st.deliver pkt)
      | some sta =>
        rxReorderSta st sta { pkt with txSta := some sta, rxRole := lk.wrole sta } now now'

/-! ## Sessions -/

/-- `phl_tid_ampdu_rx_free`: recycle what the buffer holds. -/
def phlTidAmpduRxFree (recycled : List (RxPkt ι ρ)) (r : TidAmpduRx (RxPkt ι ρ)) :
    List (RxPkt ι ρ) :=
  r.reorderBuf.foldl (fun acc pkt => acc ++ pkt.toList) recycled

/-- Free the session in `tid_rx[k]`, if any, and put `r` in its place. -/
def RxPath.replace (st : RxPath ι ρ) (k : ι × Fin 8) (r : Option (TidAmpduRx (RxPkt ι ρ))) :
    RxPath ι ρ :=
  { st with
    tidRx := Function.update st.tidRx k r
    recycled := match st.tidRx k with
      | none => st.recycled
      | some old => phlTidAmpduRxFree st.recycled old }

/-- `rtw_phl_start_rx_ba_session`. `none` is an access outside `sta->tid_rx`. -/
def rtwPhlStartRxBaSession (st : RxPath ι ρ) (sta : ι) (startSeqNum baPolicy tid bufSize : UInt16)
    (allocOk : Bool) : Option (RxPath ι ρ) :=
  if baPolicy ≠ 0 then some st
  else
    -- `PHL_MAX_AGG_WSIZE` if the peer leaves the size open
    let bufSize := if bufSize = 0 then 32 else bufSize.toNat
    if !allocOk then some st
    else if h : tid.toNat < 8 then
      some (st.replace (sta, ⟨tid.toNat, h⟩)
        (some (phlTidAmpduRxAlloc _ startSeqNum.toNat tid.toNat bufSize)))
    else none

/-- `rtw_phl_stop_rx_ba_session`. -/
def rtwPhlStopRxBaSession (st : RxPath ι ρ) (sta : Option ι) (tid : UInt16) : RxPath ι ρ :=
  match sta with
  | none => st
  | some sta => if h : tid.toNat < 8 then st.replace (sta, ⟨tid.toNat, h⟩) none else st

/-- `rtw_phl_rx_bar`. `none` is an access outside `sta->tid_rx`. -/
def rtwPhlRxBar (st : RxPath ι ρ) (sta : ι) (tid : UInt8) (seq : UInt16) :
    Option (RxPath ι ρ) :=
  if h : tid.toNat < 8 then
    match st.tidRx (sta, ⟨tid.toNat, h⟩) with
    | none => some st
    | some r => do
      let c ← rxBar (st.enter sta r) seq.toNat
      some (st.leave (sta, ⟨tid.toNat, h⟩) c)
  else none

/-- The critical section of `phl_sta_rx_reorder_timer_expired` for one TID. -/
def reorderTimerExpired (st : RxPath ι ρ) (sta : ι) (tid : Fin 8) (curTime : ℕ) :
    Option (RxPath ι ρ) :=
  match st.tidRx (sta, tid) with
  | none => some st
  | some r => do
    let c ← phlReorderRelease (st.enter sta r) curTime
    some (st.leave (sta, tid) c)

/-- The first critical section of `phl_free_rx_reorder`: mark the sessions of `sta` removed. -/
def markRemoved (st : RxPath ι ρ) (sta : ι) : RxPath ι ρ :=
  { st with tidRx := fun k =>
      if k.1 = sta then (st.tidRx k).map fun r => { r with removed := true } else st.tidRx k }

/-- The second critical section of `phl_free_rx_reorder`: free the sessions of `sta`. -/
def freeSessions (st : RxPath ι ρ) (sta : ι) : RxPath ι ρ :=
  (List.finRange 8).foldl (fun st tid => st.replace (sta, tid) none) st

/-- What can happen on the RX path. -/
inductive RxEvent (ι ρ : Type) where
  | rx (lk : Lookup ι ρ) (appendFcs : Bool) (pkt : RxPkt ι ρ) (now now' : ℕ)
  | timerExpired (sta : ι) (tid : Fin 8) (curTime : ℕ)
  | bar (sta : ι) (tid : UInt8) (seq : UInt16)
  | startBa (sta : ι) (startSeqNum baPolicy tid bufSize : UInt16) (allocOk : Bool)
  | stopBa (sta : Option ι) (tid : UInt16)
  | markRemoved (sta : ι)
  | freeSessions (sta : ι)

/-- One event of the RX path. -/
def rxPathStep (st : RxPath ι ρ) : RxEvent ι ρ → Option (RxPath ι ρ)
  | .rx lk appendFcs pkt now now' =>
    phlRxReorder lk appendFcs { st with handed := st.handed ++ [pkt.id] } pkt now now'
  | .timerExpired sta tid curTime => reorderTimerExpired st sta tid curTime
  | .bar sta tid seq => rtwPhlRxBar st sta tid seq
  | .startBa sta startSeqNum baPolicy tid bufSize allocOk =>
    rtwPhlStartRxBaSession st sta startSeqNum baPolicy tid bufSize allocOk
  | .stopBa sta tid => some (rtwPhlStopRxBaSession st sta tid)
  | .markRemoved sta => some (RxReorder.markRemoved st sta)
  | .freeSessions sta => some (RxReorder.freeSessions st sta)

end Steps

/-! ## Accounting -/

/-- The identities of the packets of a list. -/
def ids (l : List (RxPkt ι ρ)) : Multiset ℕ := (l.map RxPkt.id : List ℕ)

@[simp]
theorem ids_append (l m : List (RxPkt ι ρ)) : ids (l ++ m) = ids l + ids m := by
  simp [ids]

@[simp]
theorem ids_singleton (pkt : RxPkt ι ρ) : ids [pkt] = {pkt.id} := rfl

/-- Freeing a session recycles exactly what it holds. -/
theorem phlTidAmpduRxFree_eq (recycled : List (RxPkt ι ρ)) (r : TidAmpduRx (RxPkt ι ρ)) :
    phlTidAmpduRxFree recycled r = recycled ++ held r.reorderBuf := by
  unfold phlTidAmpduRxFree
  induction r.reorderBuf generalizing recycled with
  | nil => simp [held]
  | cons pkt l ih =>
    rw [List.foldl_cons, ih]
    cases pkt <;> simp [held]

/-- The packets in the slots of the session at `k`. -/
def RxPath.heldAt (st : RxPath ι ρ) (k : ι × Fin 8) : Multiset ℕ :=
  ((st.tidRx k).map fun r => ids (held r.reorderBuf)).getD 0

section Accounting

variable [Fintype ι]

/-- In how many places the packet `i` is: delivered, recycled, or in a slot of a session. -/
def RxPath.places (st : RxPath ι ρ) (i : ℕ) : ℕ :=
  (ids st.delivered).count i + (ids st.recycled).count i + ∑ k, (st.heldAt k).count i

/-- All the packets the state accounts for. -/
def RxPath.accounted (st : RxPath ι ρ) : Multiset ℕ :=
  ids st.delivered + ids st.recycled + ∑ k, st.heldAt k

theorem count_accounted (st : RxPath ι ρ) (i : ℕ) : st.accounted.count i = st.places i := by
  simp only [RxPath.accounted, RxPath.places, Multiset.count_add, Multiset.count_sum']

/-- Every session is well formed, and every packet handed over is accounted for. -/
structure RxPath.Inv (st : RxPath ι ρ) : Prop where
  wf : ∀ k r, st.tidRx k = some r → r.Wf
  accounted : st.accounted = (st.handed : Multiset ℕ)

theorem deliver_accounted (st : RxPath ι ρ) (pkt : RxPkt ι ρ) :
    (st.deliver pkt).accounted = st.accounted + {pkt.id} := by
  simp only [RxPath.accounted, RxPath.deliver, ids_append, ids_singleton]
  abel

theorem dropFrame_accounted (st : RxPath ι ρ) (pkt : RxPkt ι ρ) :
    (st.dropFrame pkt).accounted = st.accounted + {pkt.id} := by
  simp only [RxPath.accounted, RxPath.dropFrame, ids_append, ids_singleton]
  abel

variable [DecidableEq ι]

/-- Changing one summand changes the sum by the difference. -/
private theorem sum_update_add {κ M : Type} [Fintype κ] [DecidableEq κ] [AddCommMonoid M]
    (f : κ → M) (k : κ) (b : M) : ∑ x, Function.update f k b x + f k = ∑ x, f x + b := by
  rw [Finset.sum_update_of_mem (Finset.mem_univ k),
    ← Finset.sum_sdiff (Finset.subset_univ {k}), Finset.sum_singleton]
  abel

/-- Replacing one session replaces its share of the packets held. -/
theorem sum_heldAt_update (st : RxPath ι ρ) {st' : RxPath ι ρ} {k : ι × Fin 8}
    {r : Option (TidAmpduRx (RxPkt ι ρ))} (h : st'.tidRx = Function.update st.tidRx k r) :
    ∑ x, st'.heldAt x + st.heldAt k = ∑ x, st.heldAt x + st'.heldAt k := by
  have hfun : st'.heldAt = Function.update st.heldAt k (st'.heldAt k) := by
    ext1 x
    by_cases hx : x = k
    · rw [hx, Function.update_self]
    · rw [Function.update_of_ne hx]
      simp only [RxPath.heldAt, h, Function.update_of_ne hx]
  rw [hfun, sum_update_add, Function.update_self]

/-- A call that works on one session accounts for what it found and what it brought in. -/
theorem leave_accounted {st : RxPath ι ρ} {k : ι × Fin 8} {r : TidAmpduRx (RxPkt ι ρ)}
    (hr : st.tidRx k = some r) {c : RxCtx (RxPkt ι ρ)} (new back : Multiset (RxPkt ι ρ))
    (hc : c.owned + back = (st.enter k.1 r).owned + new) :
    (st.leave k c).accounted + back.map RxPkt.id = st.accounted + new.map RxPkt.id := by
  have hsum : ∑ x, (st.leave k c).heldAt x + ids (held r.reorderBuf) =
      ∑ x, st.heldAt x + ids (held c.r.reorderBuf) := by
    have hupd := sum_heldAt_update st (st.leave_tidRx k c)
    simpa [RxPath.heldAt, hr, RxPath.leave] using hupd
  have hmap : ids c.frames + ids c.recycled + ids (held c.r.reorderBuf) + back.map RxPkt.id =
      ids st.delivered + ids st.recycled + ids (held r.reorderBuf) + new.map RxPkt.id := by
    simpa [RxCtx.owned, RxPath.enter, ids] using congrArg (Multiset.map RxPkt.id) hc
  -- the packets of the session, before and after, appear on both sides
  refine add_right_cancel (b := ids (held r.reorderBuf) + ids (held c.r.reorderBuf)) ?_
  calc (st.leave k c).accounted + back.map RxPkt.id +
        (ids (held r.reorderBuf) + ids (held c.r.reorderBuf))
      = (ids c.frames + ids c.recycled + ids (held c.r.reorderBuf) + back.map RxPkt.id) +
          (∑ x, (st.leave k c).heldAt x + ids (held r.reorderBuf)) := by
        simp only [RxPath.accounted, RxPath.leave]
        abel
    _ = (ids st.delivered + ids st.recycled + ids (held r.reorderBuf) + new.map RxPkt.id) +
          (∑ x, st.heldAt x + ids (held c.r.reorderBuf)) := by rw [hmap, hsum]
    _ = st.accounted + new.map RxPkt.id +
          (ids (held r.reorderBuf) + ids (held c.r.reorderBuf)) := by
        simp only [RxPath.accounted]
        abel

/-- Freeing a session for an empty one or none moves its packets to the recycled ones. -/
theorem replace_accounted (st : RxPath ι ρ) (k : ι × Fin 8)
    {r : Option (TidAmpduRx (RxPkt ι ρ))} (hr : ∀ r', r = some r' → held r'.reorderBuf = []) :
    (st.replace k r).accounted = st.accounted := by
  have hnew : (st.replace k r).heldAt k = 0 := by
    cases r with
    | none => simp [RxPath.heldAt, RxPath.replace]
    | some r' => simp [RxPath.heldAt, RxPath.replace, hr r' rfl, ids]
  have hsum := sum_heldAt_update st (show (st.replace k r).tidRx = _ from rfl)
  rw [hnew, add_zero] at hsum
  simp only [RxPath.accounted, ← hsum]
  cases hk : st.tidRx k with
  | none => simp [RxPath.replace, RxPath.heldAt, hk]
  | some old =>
    have hold : st.heldAt k = ids (held old.reorderBuf) := by simp [RxPath.heldAt, hk]
    have hrec : (st.replace k r).recycled = st.recycled ++ held old.reorderBuf := by
      simp only [RxPath.replace, hk, phlTidAmpduRxFree_eq]
    rw [hold, hrec, ids_append]
    simp only [RxPath.replace]
    abel

/-- Freeing a session keeps the invariant. -/
theorem replace_inv {st : RxPath ι ρ} (h : st.Inv) (k : ι × Fin 8)
    {r : Option (TidAmpduRx (RxPkt ι ρ))}
    (hr : ∀ r', r = some r' → r'.Wf ∧ held r'.reorderBuf = []) : (st.replace k r).Inv := by
  refine ⟨fun k' r' hk' => ?_, ?_⟩
  · exact wf_update h.wf k (fun r hr' => (hr r hr').1) k' r' hk'
  · rw [replace_accounted st k fun r' hr' => (hr r' hr').2]
    exact h.accounted

/-! ## The events -/

/-- A call that conserves the packets of the session it works on keeps the invariant. -/
theorem leave_inv {st : RxPath ι ρ} (h : st.Inv) {k : ι × Fin 8} {r : TidAmpduRx (RxPkt ι ρ)}
    (hr : st.tidRx k = some r) {c : RxCtx (RxPkt ι ρ)} (hc : Conserves (st.enter k.1 r) c) :
    (st.leave k c).Inv := by
  refine ⟨wf_update h.wf k fun r' hr' => Option.some.inj hr' ▸ hc.wf, ?_⟩
  have hacc := leave_accounted hr (c := c) 0 0 (by simpa using hc.owned)
  simp only [Multiset.map_zero, add_zero] at hacc
  exact hacc.trans h.accounted

/-- `phl_rx_reorder` for a known transmitter accounts for the packet. -/
theorem rxReorderSta_accounted {st : RxPath ι ρ} (h : ∀ k r, st.tidRx k = some r → r.Wf) (sta : ι)
    (pkt : RxPkt ι ρ) (now now' : ℕ) :
    ∃ st', rxReorderSta st sta pkt now now' = some st' ∧
      (∀ k r, st'.tidRx k = some r → r.Wf) ∧ st'.accounted = st.accounted + {pkt.id} ∧
      st'.handed = st.handed := by
  unfold rxReorderSta
  split
  next htid =>
    simp only
    cases hk : st.tidRx (sta, ⟨pkt.mdata.tid.toNat, htid⟩) with
    | none => exact ⟨_, rfl, h, deliver_accounted st pkt, rfl⟩
    | some r =>
      obtain ⟨c, kept, hc, hacc⟩ :=
        phlManageStaReorderBuf_accepts RxPkt.seq (c := st.enter sta r) (h _ r hk) pkt now now'
      have hsum := leave_accounted hk _ _ hacc.owned
      set st' := st.leave (sta, ⟨pkt.mdata.tid.toNat, htid⟩) c with hst'
      refine ⟨if kept then st' else st'.deliver pkt, ?_, ?_, ?_, ?_⟩
      · simp only [hc, hst', Option.bind_eq_bind, Option.bind_some]
      · have hwf := wf_update h (sta, ⟨pkt.mdata.tid.toNat, htid⟩)
          (fun r' hr' => Option.some.inj hr' ▸ hacc.wf)
        cases kept <;> exact hwf
      · cases kept with
        | true => simpa using hsum
        | false =>
          rw [if_neg (by simp), deliver_accounted]
          simpa using hsum
      · cases kept <;> rfl
  next => exact ⟨_, rfl, h, dropFrame_accounted st pkt, rfl⟩

/-- `phl_rx_reorder` accounts for the packet on every path. -/
theorem phlRxReorder_accounted {st : RxPath ι ρ} (h : ∀ k r, st.tidRx k = some r → r.Wf)
    (lk : Lookup ι ρ) (appendFcs : Bool) (pkt : RxPkt ι ρ) (now now' : ℕ) :
    ∃ st', phlRxReorder lk appendFcs st pkt now now' = some st' ∧
      (∀ k r, st'.tidRx k = some r → r.Wf) ∧ st'.accounted = st.accounted + {pkt.id} ∧
      st'.handed = st.handed := by
  unfold phlRxReorder
  split
  next => exact ⟨_, rfl, h, dropFrame_accounted st pkt, rfl⟩
  next =>
    simp only
    split
    next =>
      refine ⟨_, rfl, h, ?_, rfl⟩
      rw [deliver_accounted, RxPkt.removeFcs_id]
    next =>
      split
      next =>
        refine ⟨_, rfl, h, ?_, rfl⟩
        rw [deliver_accounted, RxPkt.removeFcs_id]
      next sta hsta =>
        obtain ⟨st', hst', hwf, hacc, hhand⟩ := rxReorderSta_accounted h sta
          { pkt.removeFcs appendFcs with txSta := some sta, rxRole := lk.wrole sta } now now'
        refine ⟨st', hst', hwf, ?_, hhand⟩
        rw [hacc, RxPkt.removeFcs_id]

/-- Marking sessions as removed moves no packet. -/
theorem markRemoved_inv {st : RxPath ι ρ} (h : st.Inv) (sta : ι) : (markRemoved st sta).Inv := by
  have hheld : (markRemoved st sta).heldAt = st.heldAt := by
    ext1 k
    simp only [RxPath.heldAt, markRemoved]
    split
    · cases st.tidRx k <;> rfl
    · rfl
  refine ⟨fun k r hr => ?_, ?_⟩
  · simp only [markRemoved] at hr
    split at hr
    · obtain ⟨r', hr', rfl⟩ := Option.map_eq_some_iff.mp hr
      have hwf := h.wf k r' hr'
      exact ⟨hwf.bufSize_pos, hwf.bufSize_lt, hwf.length_buf, hwf.stored⟩
    · exact h.wf k r hr
  · rw [RxPath.accounted, hheld]
    exact h.accounted

/-- Freeing the sessions of a station recycles what they hold. -/
theorem freeSessions_inv {st : RxPath ι ρ} (h : st.Inv) (sta : ι) : (freeSessions st sta).Inv := by
  unfold freeSessions
  induction List.finRange 8 generalizing st with
  | nil => exact h
  | cons tid l ih => exact ih (replace_inv h (sta, tid) (by simp))

/-- Starting a session, if the TID has an entry, frees the session in its place. -/
theorem rtwPhlStartRxBaSession_inv {st : RxPath ι ρ} (h : st.Inv) (sta : ι)
    (startSeqNum baPolicy tid bufSize : UInt16) (allocOk : Bool)
    (htid : baPolicy = 0 → allocOk = true → tid.toNat < 8) :
    ∃ st', rtwPhlStartRxBaSession st sta startSeqNum baPolicy tid bufSize allocOk = some st' ∧
      st'.Inv := by
  unfold rtwPhlStartRxBaSession
  split
  next => exact ⟨st, rfl, h⟩
  next hpol =>
    simp only
    split
    next => exact ⟨st, rfl, h⟩
    next halloc =>
      have hlt : tid.toNat < 8 := htid (by simpa using hpol) (by simpa using halloc)
      rw [dif_pos hlt]
      refine ⟨_, rfl, replace_inv h _ fun r' hr' => ?_⟩
      obtain rfl := Option.some.inj hr'
      refine ⟨phlTidAmpduRxAlloc_wf ?_ ?_, by simp [phlTidAmpduRxAlloc]⟩
      · split
        next => decide
        next hne => exact Nat.pos_of_ne_zero fun h0 => hne (UInt16.toNat_inj.mp h0)
      · split
        next => decide
        next => exact bufSize.toNat_lt

/-- A timer expiry keeps every packet accounted for. -/
theorem reorderTimerExpired_inv {st : RxPath ι ρ} (h : st.Inv) (sta : ι) (tid : Fin 8)
    (curTime : ℕ) : ∃ st', reorderTimerExpired st sta tid curTime = some st' ∧ st'.Inv := by
  unfold reorderTimerExpired
  cases hk : st.tidRx (sta, tid) with
  | none => exact ⟨st, rfl, h⟩
  | some r =>
    obtain ⟨c, hc, hcons⟩ :=
      phlReorderRelease_conserves (c := st.enter sta r) (h.wf _ r hk) curTime
    exact ⟨st.leave (sta, tid) c, by simp only [hc]; rfl, leave_inv h hk hcons⟩

/-- A block-ack request for a TID with an entry keeps every packet accounted for. -/
theorem rtwPhlRxBar_inv {st : RxPath ι ρ} (h : st.Inv) (sta : ι) {tid : UInt8} (seq : UInt16)
    (htid : tid.toNat < 8) : ∃ st', rtwPhlRxBar st sta tid seq = some st' ∧ st'.Inv := by
  unfold rtwPhlRxBar
  rw [dif_pos htid]
  cases hk : st.tidRx (sta, ⟨tid.toNat, htid⟩) with
  | none => exact ⟨st, rfl, h⟩
  | some r =>
    obtain ⟨c, hc, hcons⟩ := rxBar_conserves (c := st.enter sta r) (h.wf _ r hk) seq.toNat
    exact ⟨st.leave (sta, ⟨tid.toNat, htid⟩) c, by simp only [hc]; rfl, leave_inv h hk hcons⟩

/-- The TIDs with which sessions are started and block-ack requests arrive have an entry in
`sta->tid_rx`. -/
def RxEvent.InBounds : RxEvent ι ρ → Prop
  | .bar _ tid _ => tid.toNat < 8
  | .startBa _ _ baPolicy tid _ allocOk => baPolicy = 0 → allocOk = true → tid.toNat < 8
  | _ => True

/-- Every event in bounds is handled and accounts for every packet. -/
theorem rxPathStep_inv (st : RxPath ι ρ) (e : RxEvent ι ρ) (h : st.Inv) (hok : e.InBounds) :
    ∃ st', rxPathStep st e = some st' ∧ st'.Inv := by
  cases e with
  | rx lk appendFcs pkt now now' =>
    have hwf₀ : ∀ k r, ({ st with handed := st.handed ++ [pkt.id] } : RxPath ι ρ).tidRx k =
        some r → r.Wf := h.wf
    obtain ⟨st', hst', hwf, hacc, hhand⟩ :=
      phlRxReorder_accounted hwf₀ lk appendFcs pkt now now'
    refine ⟨st', hst', hwf, ?_⟩
    rw [hacc, hhand, ← Multiset.coe_add, ← h.accounted]
    rfl
  | timerExpired sta tid curTime =>
    exact reorderTimerExpired_inv h sta tid curTime
  | bar sta tid seq => exact rtwPhlRxBar_inv h sta seq hok
  | startBa sta startSeqNum baPolicy tid bufSize allocOk =>
    exact rtwPhlStartRxBaSession_inv h sta startSeqNum baPolicy tid bufSize allocOk hok
  | stopBa sta tid =>
    refine ⟨_, rfl, ?_⟩
    unfold rtwPhlStopRxBaSession
    split
    · exact h
    · split
      · exact replace_inv h _ (by simp)
      · exact h
  | markRemoved sta => exact ⟨_, rfl, markRemoved_inv h sta⟩
  | freeSessions sta => exact ⟨_, rfl, freeSessions_inv h sta⟩

omit [Fintype ι] in
/-- An event that is not in bounds reads behind the end of `sta->tid_rx`. -/
theorem inBounds_of_rxPathStep {st st' : RxPath ι ρ} {e : RxEvent ι ρ}
    (h : rxPathStep st e = some st') : e.InBounds := by
  cases e with
  | bar sta tid seq =>
    by_contra hn
    have hne : ¬ tid.toNat < 8 := hn
    simp only [rxPathStep, rtwPhlRxBar, dif_neg hne] at h
    cases h
  | startBa sta startSeqNum baPolicy tid bufSize allocOk =>
    intro hpol halloc
    by_contra hne
    simp only [rxPathStep, rtwPhlStartRxBaSession, hpol, halloc, dif_neg hne] at h
    simp at h
  | rx _ _ _ _ _ => trivial
  | timerExpired _ _ _ => trivial
  | stopBa _ _ => trivial
  | markRemoved _ => trivial
  | freeSessions _ => trivial

omit [DecidableEq ι] in
theorem inv_empty : (RxPath.empty ι ρ).Inv := by
  refine ⟨fun k r hr => by simp [RxPath.empty] at hr, ?_⟩
  simp [RxPath.accounted, RxPath.empty, RxPath.heldAt, ids]

/-- At every point of a run of the RX path, every packet is in as many places as the number of
times it was handed over, if and only if no session is started and no block-ack request handled
for a TID outside `sta->tid_rx`. -/
theorem run_places_iff (es : List (RxEvent ι ρ)) :
    (∃ st, run rxPathStep (RxPath.empty ι ρ) es = some st ∧
      ∀ i, st.places i = st.handed.count i) ↔ ∀ e ∈ es, e.InBounds := by
  constructor
  · rintro ⟨st, hst, -⟩
    exact run_forall (fun _ _ _ => inBounds_of_rxPathStep) hst
  · intro hes
    obtain ⟨st, hst, hinv⟩ := run_invariant RxPath.Inv rxPathStep_inv es _ inv_empty
      (guarded_of_forall hes _)
    refine ⟨st, hst, fun i => ?_⟩
    rw [← count_accounted, hinv.accounted, Multiset.coe_count]

end Accounting

/-- A session started for TID 8 is written behind the end of `sta->tid_rx`. -/
theorem startBa_tid_out_of_bounds :
    ¬ ∃ st, run rxPathStep (RxPath.empty (Fin 1) Unit) [.startBa 0 0 0 8 64 true] = some st ∧
      ∀ i, st.places i = st.handed.count i := by
  rintro ⟨st, hst, -⟩
  cases hst

end Rtl88x2cu.RxReorder
