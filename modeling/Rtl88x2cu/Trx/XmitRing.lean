import Rtl88x2cu.Trx.TxBuffers

/-!
# Filling a USB buffer

The loop of `_phl_handle_xmit_ring_usb` (`phl/hci/phl_trx_usb.c`) on its own, over the requests of
a ring from `phl_next_idx` on, with the functions of the step system for what one pass does. On the
8822C `rtw_hal_fill_wd` always succeeds, with a descriptor of 48 bytes (`mac_txdesc_len`), whatever
`wdinfo_en` says.

The loop compares a length with the size of the data buffers, in which the descriptor has the
length by `wdinfo_en`, and no driver code sets `wdinfo_en`. `fits_iff` says for which rings what is
written stays in the buffer nevertheless.
-/

namespace Rtl88x2cu.Trx.UsbTx

/-! ## Model -/

/-- `mac_txdesc_len`. -/
def macTxdescLen : ℕ := 48

/-- The loop of `_phl_handle_xmit_ring_usb` over the entries from `rptr` on, with `req_busy` as
fuel. `ofst` is the `usb_pkt_ofst` that the requests have before. -/
def xmitLoop (cfg : TxCfg) (entry : ℕ → Option XmitReq) (ofst : XmitReq → Bool) :
    ℕ → ℕ → Loc → Loc
  | 0, _, loc => loc
  | reqBusy + 1, rptr, loc =>
    match entry rptr with
    | none => loc
    | some req =>
      match beforePrepare cfg loc req with
      | none => loc
      | some loc' =>
        let loc' := prepareTxUsb loc' req (ofst req || marks loc) (some macTxdescLen)
        if loc'.pstatus = .success then
          if (afterPrepare cfg loc').2 then
            xmitLoop cfg entry ofst reqBusy (nextPtr rptr) (afterPrepare cfg loc').1
          else (afterPrepare cfg loc').1
        else loc'

/-- The variables at the start of the loop. -/
def xmitStart (cfg : TxCfg) (ring : TxRing) (reqBusy : ℕ) : Loc :=
  let pre := if cfg.paddingChk then usbTxAggPreprocess cfg ring reqBusy else (idxNone, false)
  { reqBusy, lastIdx := pre.1, isDummy := pre.2 }

/-- `_phl_handle_xmit_ring_usb` up to the end of its loop. -/
def handleXmitRingUsb (cfg : TxCfg) (ring : TxRing) (reqBusy : ℕ) (ofst : XmitReq → Bool) : Loc :=
  xmitLoop cfg ring.entry ofst reqBusy (toU16 ring.phlNextIdx) (xmitStart cfg ring reqBusy)

/-- `buf_len` of the buffer for a ring. -/
def bufLen (cfg : TxCfg) (tid : Fin 10) : ℕ :=
  if tid = mgmtTid then cfg.txMgntBufSize else cfg.txBufSize

/-! ## The requests in front of the loop -/

/-- The requests from `rptr` on, up to an empty entry. -/
def window (entry : ℕ → Option XmitReq) : ℕ → ℕ → List XmitReq
  | 0, _ => []
  | reqBusy + 1, rptr =>
    match entry rptr with
    | none => []
    | some req => req :: window entry reqBusy (nextPtr rptr)

/-- One pass for a request: the variables after it, and whether the loop goes on. `none` if one of
the checks leaves the loop first. -/
def xmitPass (cfg : TxCfg) (ofst : XmitReq → Bool) (loc : Loc) (req : XmitReq) :
    Option (Loc × Bool) :=
  (beforePrepare cfg loc req).map fun loc' =>
    let loc' := prepareTxUsb loc' req (ofst req || marks loc) (some macTxdescLen)
    if loc'.pstatus = .success then afterPrepare cfg loc' else (loc', false)

/-- The loop over a list of requests. -/
def xmitList (cfg : TxCfg) (ofst : XmitReq → Bool) : List XmitReq → Loc → Loc
  | [], loc => loc
  | req :: reqs, loc =>
    match xmitPass cfg ofst loc req with
    | none => loc
    | some (loc', true) => xmitList cfg ofst reqs loc'
    | some (loc', false) => loc'

/-- The requests are sent one after the other, and the loop goes on after the last one. -/
def sendAll (cfg : TxCfg) (ofst : XmitReq → Bool) : List XmitReq → Loc → Option Loc
  | [], loc => some loc
  | req :: reqs, loc =>
    match xmitPass cfg ofst loc req with
    | some (loc', true) => sendAll cfg ofst reqs loc'
    | _ => none

section
variable {cfg : TxCfg} {ofst : XmitReq → Bool} {loc loc' : Loc} {req : XmitReq}
  {reqs : List XmitReq}

theorem xmitLoop_eq (entry : ℕ → Option XmitReq) (reqBusy rptr : ℕ) (loc : Loc) :
    xmitLoop cfg entry ofst reqBusy rptr loc =
      xmitList cfg ofst (window entry reqBusy rptr) loc := by
  induction reqBusy generalizing rptr loc with
  | zero => rfl
  | succ reqBusy ih =>
    unfold xmitLoop window
    cases entry rptr with
    | none => rfl
    | some req =>
      simp only [xmitList, xmitPass]
      cases beforePrepare cfg loc req with
      | none => rfl
      | some loc' =>
        simp only [Option.map_some]
        split
        · -- the request has been prepared
          split
          · next hgo => rw [ih, show afterPrepare cfg _ = (_, true) from Prod.ext rfl hgo]
          · next hstop =>
            rw [show afterPrepare cfg _ = (_, false) from Prod.ext rfl (by simpa using hstop)]
        · rfl

theorem handleXmitRingUsb_eq (ring : TxRing) (reqBusy : ℕ) :
    handleXmitRingUsb cfg ring reqBusy ofst =
      xmitList cfg ofst (window ring.entry reqBusy (toU16 ring.phlNextIdx))
        (xmitStart cfg ring reqBusy) :=
  xmitLoop_eq _ _ _ _

/-! ## Where a request is put -/

/-- What a pass leaves behind: one more segment, at an aligned place. -/
structure Put (cfg : TxCfg) (ofst : XmitReq → Bool) (loc loc' : Loc) (req : XmitReq) (go : Bool) :
    Prop where
  before : ∃ loc₁, beforePrepare cfg loc req = some loc₁ ∧ loc'.txBufData = loc₁.txBufData
  segs : loc'.segs =
    loc.segs ++ [⟨loc'.txBufData, copyLen req (ofst req || marks loc) macTxdescLen, req⟩]

theorem xmitPass_put {go : Bool} (h : xmitPass cfg ofst loc req = some (loc', go)) :
    Put cfg ofst loc loc' req go := by
  obtain ⟨loc₁, hb, hpass⟩ := Option.map_eq_some_iff.mp h
  have hsegs : loc₁.segs = loc.segs := by
    obtain ⟨-, -, rfl⟩ | ⟨-, rfl⟩ := beforePrepare_cases hb <;> rfl
  simp only at hpass
  split at hpass
  · -- the rest of the body only touches the counters
    obtain ⟨_, _, heq⟩ := afterPrepare_eq cfg
      (prepareTxUsb loc₁ req (ofst req || marks loc) (some macTxdescLen))
    rw [hpass] at heq
    simp only at heq
    subst heq
    exact ⟨⟨loc₁, hb, rfl⟩, congrArg (· ++ _) hsegs⟩
  · obtain ⟨rfl, -⟩ := Prod.mk.inj hpass
    exact ⟨⟨loc₁, hb, rfl⟩, congrArg (· ++ _) hsegs⟩

theorem align8_mod (len : ℕ) : align8 len % 8 = 0 := by
  unfold align8
  omega

/-- The place of a request is aligned, whatever the lengths are. -/
theorem Put.aligned {go : Bool} (h : Put cfg ofst loc loc' req go)
    (hloc : loc.txBufData % 8 = 0) : loc'.txBufData % 8 = 0 := by
  obtain ⟨loc₁, hb, heq⟩ := h.before
  rw [heq]
  obtain ⟨-, -, rfl⟩ | ⟨-, rfl⟩ := beforePrepare_cases hb
  · have := align8_mod loc.packetLen
    show (loc.txBufData + align8 loc.packetLen) % 8 = 0
    omega
  · exact hloc

/-- Everything that has been written is inside of the buffer. -/
def Inside (len : ℕ) (loc : Loc) : Prop := ∀ seg ∈ loc.segs, seg.ofs + seg.len ≤ len

/-- The end of a request when it is prepared from these variables. -/
def putEnd (ofst : XmitReq → Bool) (loc loc₁ : Loc) (req : XmitReq) : ℕ :=
  loc₁.txBufData + copyLen req (ofst req || marks loc) macTxdescLen

/-- The checks are enough: when the first requests have been sent and the next one passes the
checks as well, it ends inside of the buffer. -/
def ChecksSuffice (cfg : TxCfg) (ofst : XmitReq → Bool) (len : ℕ) (reqs : List XmitReq)
    (loc : Loc) : Prop :=
  ∀ sent req, sent ++ [req] <+: reqs → ∀ loc' ∈ sendAll cfg ofst sent loc,
    ∀ loc₁ ∈ beforePrepare cfg loc' req, putEnd ofst loc' loc₁ req ≤ len

/-- The first request is either not sent, or ends inside and the others go on behind it. -/
theorem checksSuffice_cons {len : ℕ} :
    ChecksSuffice cfg ofst len (req :: reqs) loc ↔
      (∀ loc₁ ∈ beforePrepare cfg loc req, putEnd ofst loc loc₁ req ≤ len) ∧
        ∀ loc', xmitPass cfg ofst loc req = some (loc', true) →
          ChecksSuffice cfg ofst len reqs loc' := by
  constructor
  · intro h
    refine ⟨h [] req (List.prefix_iff_eq_append.mpr rfl) loc rfl,
      fun loc' hpass sent req' hpre => ?_⟩
    have hsend : sendAll cfg ofst (req :: sent) loc = sendAll cfg ofst sent loc' := by
      rw [sendAll, hpass]
    rw [← hsend]
    exact h (req :: sent) req' ((List.prefix_cons_inj req).mpr hpre)
  · rintro ⟨hfirst, hrest⟩ sent req' hpre
    cases sent with
    | nil =>
      obtain ⟨rfl, -⟩ := List.cons_prefix_cons.mp hpre
      intro loc' hloc'
      obtain rfl := Option.some.inj hloc'
      exact hfirst
    | cons req'' sent =>
      obtain ⟨rfl, hpre'⟩ := List.cons_prefix_cons.mp hpre
      unfold sendAll
      split
      · next loc' hpass => exact hrest loc' hpass sent req' hpre'
      · exact fun loc' hloc' => absurd hloc' (by simp)

theorem Put.inside_iff {go : Bool} (h : Put cfg ofst loc loc' req go) (len : ℕ) :
    Inside len loc' ↔
      Inside len loc ∧ ∀ loc₁ ∈ beforePrepare cfg loc req, putEnd ofst loc loc₁ req ≤ len := by
  obtain ⟨loc₁, hb, heq⟩ := h.before
  have hend : (∀ loc₂ ∈ beforePrepare cfg loc req, putEnd ofst loc loc₂ req ≤ len) ↔
      loc'.txBufData + copyLen req (ofst req || marks loc) macTxdescLen ≤ len := by
    rw [hb, heq]
    exact ⟨fun hall => hall loc₁ rfl, fun hle loc₂ h₂ => Option.some.inj h₂ ▸ hle⟩
  rw [hend, Inside, h.segs, List.forall_mem_append, List.forall_mem_singleton]
  rfl

/-- What has been written in the end is inside of the buffer exactly if it was before and the
checks are enough. -/
theorem xmitList_inside_iff (len : ℕ) :
    Inside len (xmitList cfg ofst reqs loc) ↔
      Inside len loc ∧ ChecksSuffice cfg ofst len reqs loc := by
  induction reqs generalizing loc with
  | nil =>
    have hnil : ChecksSuffice cfg ofst len [] loc := fun sent req hpre =>
      absurd (List.prefix_nil.mp hpre) (by simp)
    exact ⟨fun h => ⟨h, hnil⟩, And.left⟩
  | cons req reqs ih =>
    rw [checksSuffice_cons]
    unfold xmitList
    split
    · next hpass =>
      -- one of the checks leaves the loop
      have hb := Option.map_eq_none_iff.mp hpass
      rw [hb, hpass]
      simp
    · next loc' hpass =>
      rw [ih, (xmitPass_put hpass).inside_iff len, hpass, and_assoc]
      simp
    · next loc' hpass =>
      rw [(xmitPass_put hpass).inside_iff len, hpass]
      simp

end

/-- The fragments of the request are all there, and `total_len` is the sum of their lengths. -/
def Whole (req : XmitReq) : Prop :=
  ((req.pktList.filter (·.virAddr)).map (·.length)).sum = req.totalLen

/-- One request is sent in a buffer. The check lets it pass up to 2024 bytes, and the descriptor
takes 48. -/
theorem single_fits_iff (ring : TxRing) (tid : Fin 10) (reqBusy : ℕ) {req : XmitReq}
    {reqs : List XmitReq} (hwindow : window ring.entry reqBusy (toU16 ring.phlNextIdx) =
      req :: reqs)
    (hwd : req.wdinfoEn = false) (hwhole : Whole req) :
    Inside (bufLen cfg8822cu tid) (handleXmitRingUsb cfg8822cu ring reqBusy fun _ => false) ↔
      2024 < req.totalLen ∨ 48 + req.totalLen ≤ bufLen cfg8822cu tid := by
  have hstart : Inside (bufLen cfg8822cu tid) (xmitStart cfg8822cu ring reqBusy) := by
    simp [Inside, xmitStart]
  have hmarks : marks (xmitStart cfg8822cu ring reqBusy) = false := rfl
  have hbefore : beforePrepare cfg8822cu (xmitStart cfg8822cu ring reqBusy) req =
      if 2048 < align8 (24 + req.totalLen) then none
      else some { xmitStart cfg8822cu ring reqBusy with type := req.type } := by
    have hwdLen : wdLen (xmitStart cfg8822cu ring reqBusy) req = 24 := by
      rw [wdLen, hmarks, maxWdLen, hwd]
      rfl
    rw [beforePrepare, hwdLen]
    rfl
  have hnoMore (loc' : Loc)
      (hpass : xmitPass cfg8822cu (fun _ => false) (xmitStart cfg8822cu ring reqBusy) req =
        some (loc', true)) :
      ChecksSuffice cfg8822cu (fun _ => false) (bufLen cfg8822cu tid) reqs loc' := by
    obtain ⟨loc₁, hb, hrest⟩ := Option.map_eq_some_iff.mp hpass
    have hcnt : (prepareTxUsb loc₁ req false (some macTxdescLen)).aggCnt = 0 :=
      prepareTxUsb_aggCnt hb
    simp only at hrest
    split at hrest
    · exact absurd (congrArg Prod.snd hrest)
        (by rw [Bool.false_or, hmarks, afterPrepare_single rfl hcnt]; simp)
    · exact absurd (congrArg Prod.snd hrest) (by simp)
  rw [handleXmitRingUsb_eq, xmitList_inside_iff, and_iff_right hstart, hwindow, checksSuffice_cons,
    and_iff_left hnoMore, hbefore]
  have halign : 2048 < align8 (24 + req.totalLen) ↔ 2024 < req.totalLen := by
    unfold align8
    omega
  split
  · next hlong => simp [halign.mp hlong]
  · next hshort =>
    have hend : putEnd (fun _ => false) (xmitStart cfg8822cu ring reqBusy)
        { xmitStart cfg8822cu ring reqBusy with type := req.type } req = 48 + req.totalLen := by
      rw [putEnd, hmarks, copyLen, hwhole]
      exact Nat.zero_add _
    simp [mt halign.mpr hshort, hend]

end Rtl88x2cu.Trx.UsbTx
