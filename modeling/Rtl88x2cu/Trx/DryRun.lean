import Rtl88x2cu.Trx.XmitRing

/-!
# The dry run of the aggregation

`_usb_tx_agg_preprocess` goes over the requests of a ring as the loop of
`_phl_handle_xmit_ring_usb` does afterwards (`phl/hci/phl_trx_usb.c`). It marks the last request of
the aggregate, and the loop puts eight bytes in front of the packet of that request if the transfer
would otherwise end on the boundary of a bulk.
-/

namespace Rtl88x2cu.Trx.UsbTx

/-! ## The dry run over a list -/

/-- One of the two checks leaves the loop in front of the request. -/
def Pre.Rejects (cfg : TxCfg) (p : Pre) (req : XmitReq) : Prop :=
  cfg.txBufSize - pktOffsetDummy < align8 (maxWdLen req + req.totalLen) + p.txLen ∨
    (p.txLen + maxWdLen req + (align8 p.packetLen - p.packetLen)) % cfg.bulkoutSize = 0

instance (cfg : TxCfg) (p : Pre) (req : XmitReq) : Decidable (p.Rejects cfg req) :=
  inferInstanceAs (Decidable (_ ∨ _))

/-- The length of the transfer with the request. -/
def Pre.newLen (p : Pre) (req : XmitReq) : ℕ :=
  p.txLen + (align8 p.packetLen - p.packetLen) + (maxWdLen req + req.totalLen)

/-- The variables behind the request. -/
def Pre.take (cfg : TxCfg) (p : Pre) (req : XmitReq) : Pre :=
  let moved := p.newLen req >>> getShiftOffset cfg.bulkoutSize
  { p with
    cnt := p.cnt + 1
    txLen := p.newLen req
    packetLen := maxWdLen req + req.totalLen
    trascAggCnt := if p.trascIdx ≠ moved then 0 else (p.trascAggCnt + 1) % 256
    trascIdx := if p.trascIdx ≠ moved then moved % 256 else p.trascIdx }

/-- The request that has been taken is the last one. -/
def Pre.Stops (cfg : TxCfg) (p : Pre) (req : XmitReq) : Prop :=
  cfg.maxBulkoutWdNum ≤ p.trascAggCnt ∨ req.type ≠ .data ∨ cfg.aggregation = false

instance (cfg : TxCfg) (p : Pre) (req : XmitReq) : Decidable (p.Stops cfg req) :=
  inferInstanceAs (Decidable (_ ∨ _ ∨ _))

/-- How many requests the dry run takes, and the length of their transfer. -/
def dryList (cfg : TxCfg) : List XmitReq → Pre → ℕ × ℕ
  | [], p => (p.cnt, p.txLen)
  | req :: reqs, p =>
    if p.Rejects cfg req then (p.cnt, p.txLen)
    else if (p.take cfg req).Stops cfg req then (p.cnt + 1, p.newLen req)
    else dryList cfg reqs (p.take cfg req)

/-- `last_idx` for a number of requests. -/
def markedIdx (n : ℕ) : ℕ := if n ≠ 0 then n - 1 else idxNone

/-- The variables in front of a request: nothing is marked, and the transfer is empty at the start
only. -/
structure Pre.Running (p : Pre) : Prop where
  lastIdx : p.lastIdx = idxNone
  txLen : p.txLen = 0 ↔ p.cnt = 0

section
variable {cfg : TxCfg} {p : Pre} {req : XmitReq} {reqBusy : ℕ}

theorem maxWdLen_pos (req : XmitReq) : 0 < maxWdLen req := by
  unfold maxWdLen
  split <;> decide

theorem Pre.Running.take (h : p.Running) : (p.take cfg req).Running := by
  refine ⟨h.lastIdx, iff_of_false ?_ (Nat.succ_ne_zero _)⟩
  have := maxWdLen_pos req
  show p.newLen req ≠ 0
  unfold Pre.newLen
  omega

end

/-! ## One pass of the loop -/

/-- The dry run has the length of what is copied: the request has a descriptor with `wdinfo_en`, no
dummy bytes from an earlier run, and all its fragments, and the core takes it back. -/
structure Accounted (ofst : XmitReq → Bool) (req : XmitReq) : Prop where
  wdinfoEn : req.wdinfoEn = true
  ofst : ofst req = false
  whole : Whole req
  recycled : txRecycle req = .success

/-- The build options under which there is a dry run, and the sizes of the 8822CU. -/
structure AggBuild (cfg : TxCfg) : Prop where
  aggregation : cfg.aggregation = true
  paddingChk : cfg.paddingChk = true
  txBufSize : cfg.txBufSize = 2048
  bulkoutSize : cfg.bulkoutSize = 64 ∨ cfg.bulkoutSize = 512 ∨ cfg.bulkoutSize = 1024

/-- One of the two checks of `_phl_handle_xmit_ring_usb` leaves the loop. -/
def Loc.Rejects (cfg : TxCfg) (loc : Loc) (req : XmitReq) : Prop :=
  txLimit cfg < align8 (wdLen loc req + req.totalLen) + loc.txLen ∨
    (loc.txLen ≠ 0 ∧
      (loc.txLen + wdLen loc req + align8 loc.packetLen - loc.packetLen) % cfg.bulkoutSize = 0)

instance (cfg : TxCfg) (loc : Loc) (req : XmitReq) : Decidable (loc.Rejects cfg req) :=
  inferInstanceAs (Decidable (_ ∨ _))

/-- What a pass leaves behind, in the lengths of the dry run. -/
structure Sent (cfg : TxCfg) (loc loc' : Loc) (req : XmitReq) (go : Bool) : Prop where
  segs : loc'.segs.length = loc.segs.length + 1
  txLen : loc'.txLen = loc.txLen + (align8 loc.packetLen - loc.packetLen) +
    (wdLen loc req + req.totalLen)
  packetLen : loc'.packetLen = wdLen loc req + req.totalLen
  aggCnt : loc'.aggCnt = (loc.aggCnt + 1) % 256
  lastIdx : loc'.lastIdx = loc.lastIdx
  isDummy : loc'.isDummy = loc.isDummy
  go_iff : go = true ↔ req.type = .data ∧ loc'.trascAggCnt < cfg.maxBulkoutWdNum
  trascAggCnt : req.type = .data → loc'.trascAggCnt =
    if loc.trascIdx ≠ loc'.txLen >>> getShiftOffset cfg.bulkoutSize then 0
    else (loc.trascAggCnt + 1) % 256
  trascIdx : req.type = .data → loc'.trascIdx =
    if loc.trascIdx ≠ loc'.txLen >>> getShiftOffset cfg.bulkoutSize
    then loc'.txLen >>> getShiftOffset cfg.bulkoutSize % 256 else loc.trascIdx

section
variable {cfg : TxCfg} {ofst : XmitReq → Bool} {p : Pre} {loc loc' : Loc} {req : XmitReq}
  {reqs : List XmitReq}

theorem alignTx_txLen (loc : Loc) :
    (alignTx loc).txLen = loc.txLen + (align8 loc.packetLen - loc.packetLen) := by
  unfold alignTx
  have := le_align8 loc.packetLen
  dsimp only
  split <;> omega

/-- At the start there is nothing to align. -/
theorem alignTx_of_packetLen (h : loc.packetLen = 0) : alignTx loc = loc := by
  have h8 : align8 loc.packetLen = 0 := by rw [h]; rfl
  unfold alignTx
  rw [h8, if_neg (Nat.not_lt_zero _)]
  rfl

theorem beforePrepare_eq (hcfg : AggBuild cfg)
    (hfirst : req.type = .data ∨ loc.txLen = 0 ∧ loc.packetLen = 0) :
    beforePrepare cfg loc req =
      if loc.Rejects cfg req then none else some { alignTx loc with type := req.type } := by
  unfold beforePrepare
  by_cases hlong : txLimit cfg < align8 (wdLen loc req + req.totalLen) + loc.txLen
  · rw [if_pos hlong, if_pos (show loc.Rejects cfg req from .inl hlong)]
  rw [if_neg hlong]
  by_cases htype : req.type = .data
  · rw [if_pos ⟨hcfg.aggregation, htype⟩]
    by_cases hbulk : loc.txLen ≠ 0 ∧
        (loc.txLen + wdLen loc req + align8 loc.packetLen - loc.packetLen) % cfg.bulkoutSize = 0
    · rw [if_pos hbulk, if_pos (show loc.Rejects cfg req from .inr hbulk)]
    · rw [if_neg hbulk, if_neg (show ¬ loc.Rejects cfg req from not_or_intro hlong hbulk)]
  · -- only the first request of a transfer
    obtain ⟨h0, hlen⟩ := hfirst.resolve_left htype
    have hbulk : ¬ (loc.txLen ≠ 0 ∧
        (loc.txLen + wdLen loc req + align8 loc.packetLen - loc.packetLen) % cfg.bulkoutSize = 0) :=
      fun h => h.1 h0
    rw [if_neg (fun h => htype h.2),
      if_neg (show ¬ loc.Rejects cfg req from not_or_intro hlong hbulk), alignTx_of_packetLen hlen]

/-- The bytes that are copied are those that the loop counts. -/
theorem Accounted.copyLen_eq (h : Accounted ofst req) :
    copyLen req (ofst req || marks loc) macTxdescLen = wdLen loc req + req.totalLen := by
  have hsum : ((req.pktList.filter (·.virAddr)).map (·.length)).sum = req.totalLen := h.whole
  unfold copyLen wdLen maxWdLen
  rw [hsum, h.ofst, h.wdinfoEn, Bool.false_or]
  cases marks loc <;> rfl

/-- The loop goes on with data only, up to the limit of descriptors in a bulk. -/
theorem afterPrepare_go (hagg : cfg.aggregation = true) :
    (afterPrepare cfg loc).2 = true ↔
      loc.type = .data ∧ (afterPrepare cfg loc).1.trascAggCnt < cfg.maxBulkoutWdNum := by
  unfold afterPrepare
  by_cases htype : loc.type = .data
  · simp [htype, hagg]
  · simp [htype]

theorem afterPrepare_trasc (hagg : cfg.aggregation = true) (htype : loc.type = .data) :
    (afterPrepare cfg loc).1.trascAggCnt =
        (if loc.trascIdx ≠ loc.txLen >>> getShiftOffset cfg.bulkoutSize then 0
        else (loc.trascAggCnt + 1) % 256) ∧
      (afterPrepare cfg loc).1.trascIdx =
        (if loc.trascIdx ≠ loc.txLen >>> getShiftOffset cfg.bulkoutSize
        then loc.txLen >>> getShiftOffset cfg.bulkoutSize % 256 else loc.trascIdx) := by
  unfold afterPrepare
  simp only [htype, hagg, ne_eq, not_true_eq_false, if_false, if_true]
  split <;> exact ⟨rfl, rfl⟩

theorem xmitPass_sent (hcfg : AggBuild cfg) (hacc : Accounted ofst req)
    (hfirst : req.type = .data ∨ loc.txLen = 0 ∧ loc.packetLen = 0)
    (hrej : ¬ loc.Rejects cfg req) :
    ∃ loc' go, xmitPass cfg ofst loc req = some (loc', go) ∧ Sent cfg loc loc' req go := by
  obtain ⟨loc₁, hloc₁⟩ : ∃ loc₁, loc₁ = prepareTxUsb { alignTx loc with type := req.type } req
      (ofst req || marks loc) (some macTxdescLen) := ⟨_, rfl⟩
  have hpass : xmitPass cfg ofst loc req = some (afterPrepare cfg loc₁) := by
    rw [xmitPass, beforePrepare_eq hcfg hfirst, if_neg hrej, Option.map_some, ← hloc₁]
    have hok : loc₁.pstatus = .success := hloc₁ ▸ hacc.recycled
    exact congrArg some (if_pos hok)
  have hlen : copyLen req (ofst req || marks loc) macTxdescLen = wdLen loc req + req.totalLen :=
    hacc.copyLen_eq
  have htx : loc₁.txLen = loc.txLen + (align8 loc.packetLen - loc.packetLen) +
      (wdLen loc req + req.totalLen) := by
    rw [hloc₁, ← hlen, ← alignTx_txLen]
    rfl
  obtain ⟨trascAggCnt, trascIdx, hafter⟩ := afterPrepare_eq cfg loc₁
  refine ⟨(afterPrepare cfg loc₁).1, (afterPrepare cfg loc₁).2, hpass, ?_⟩
  constructor
  · rw [hafter, hloc₁]
    exact List.length_append
  · rw [hafter]
    exact htx
  · rw [hafter, hloc₁]
    exact hlen
  · rw [hafter, hloc₁]
    rfl
  · rw [hafter, hloc₁]
    rfl
  · rw [hafter, hloc₁]
    rfl
  · rw [afterPrepare_go hcfg.aggregation, hloc₁]
    rfl
  · intro htype
    have htype₁ : loc₁.type = .data := hloc₁ ▸ htype
    rw [(afterPrepare_trasc hcfg.aggregation htype₁).1, hafter, hloc₁]
    rfl
  · intro htype
    have htype₁ : loc₁.type = .data := hloc₁ ▸ htype
    rw [(afterPrepare_trasc hcfg.aggregation htype₁).2, hafter, hloc₁]
    rfl

/-! ## The two loops side by side -/

/-- The lengths of the dry run in front of a request. -/
structure Pre.Sized (p : Pre) : Prop where
  running : p.Running
  /-- Every request in front has taken a descriptor. -/
  descs : 48 * p.cnt ≤ p.txLen
  room : p.txLen < 2048
  /-- The last request starts at an aligned offset. -/
  aligned : ∃ start, p.txLen = 8 * start + p.packetLen

/-- The loops are in front of the same request, with the same lengths. -/
structure Sim (p : Pre) (loc : Loc) : Prop where
  sized : p.Sized
  aggCnt : loc.aggCnt = p.cnt
  txLen : loc.txLen = p.txLen
  packetLen : loc.packetLen = p.packetLen
  trascAggCnt : loc.trascAggCnt = p.trascAggCnt
  trascIdx : loc.trascIdx = p.trascIdx
  segs : loc.segs.length = p.cnt

theorem Pre.Sized.cnt_lt (h : p.Sized) : p.cnt < 43 := by
  have := h.descs
  have := h.room
  omega

theorem maxWdLen_eq (hwd : req.wdinfoEn = true) : maxWdLen req = 48 := if_pos hwd

theorem AggBuild.txLimit_eq (h : AggBuild cfg) : txLimit cfg = 2040 := by
  unfold txLimit
  rw [h.paddingChk, h.txBufSize]
  rfl

theorem AggBuild.mod_eq {n : ℕ} (h : AggBuild cfg) (h0 : n % cfg.bulkoutSize = 0) : n % 64 = 0 := by
  rcases h.bulkoutSize with hb | hb | hb <;> rw [hb] at h0 <;> omega

/-- The lengths behind a request that the dry run takes. -/
theorem Pre.Sized.take (h : p.Sized) (hcfg : AggBuild cfg) (hwd : req.wdinfoEn = true)
    (hrej : ¬ p.Rejects cfg req) : (p.take cfg req).Sized := by
  obtain ⟨hlong, -⟩ := not_or.mp hrej
  obtain ⟨start, hstart⟩ := h.aligned
  have hdescs := h.descs
  have hlen : p.newLen req =
      p.txLen + (align8 p.packetLen - p.packetLen) + (48 + req.totalLen) := by
    rw [Pre.newLen, maxWdLen_eq hwd]
  rw [maxWdLen_eq hwd, hcfg.txBufSize] at hlong
  unfold align8 pktOffsetDummy at *
  refine ⟨h.running.take, ?_, ?_, start + (p.packetLen + 7) / 8, ?_⟩
  · show 48 * (p.cnt + 1) ≤ p.newLen req
    omega
  · show p.newLen req < 2048
    omega
  · show p.newLen req = 8 * (start + (p.packetLen + 7) / 8) + (maxWdLen req + req.totalLen)
    rw [maxWdLen_eq hwd]
    omega

theorem Pre.Sized.dryList (h : p.Sized) (hcfg : AggBuild cfg)
    (hwd : ∀ req ∈ reqs, req.wdinfoEn = true) :
    48 * (dryList cfg reqs p).1 ≤ (dryList cfg reqs p).2 ∧ (dryList cfg reqs p).2 < 2048 := by
  induction reqs generalizing p with
  | nil => exact ⟨h.descs, h.room⟩
  | cons req reqs ih =>
    unfold UsbTx.dryList
    by_cases hrej : p.Rejects cfg req
    · rw [if_pos hrej]
      exact ⟨h.descs, h.room⟩
    have hnext := h.take hcfg (hwd req (List.mem_cons_self ..)) hrej
    rw [if_neg hrej]
    split
    · exact ⟨hnext.descs, hnext.room⟩
    · exact ih hnext fun req' h' => hwd req' (List.mem_cons_of_mem _ h')

/-- Without dummy bytes the checks of the two loops are the same. -/
theorem Sim.rejects_iff (h : Sim p loc) (hcfg : AggBuild cfg) (hwd : req.wdinfoEn = true)
    (hmarks : marks loc = false) : loc.Rejects cfg req ↔ p.Rejects cfg req := by
  have hle := le_align8 p.packetLen
  have hlen : wdLen loc req = 48 := by
    rw [wdLen, hmarks, maxWdLen_eq hwd]
    rfl
  unfold Loc.Rejects Pre.Rejects
  rw [hcfg.txLimit_eq, hcfg.txBufSize, hlen, maxWdLen_eq hwd, h.txLen, h.packetLen,
    Nat.add_sub_assoc hle]
  refine or_congr Iff.rfl ⟨And.right, fun hbulk => ⟨fun h0 => ?_, hbulk⟩⟩
  -- a descriptor alone never fills a bulk
  obtain ⟨start, hstart⟩ := h.sized.aligned
  have h64 := hcfg.mod_eq hbulk
  unfold align8 at h64
  omega

theorem Pre.take_stops_iff (hcfg : AggBuild cfg) :
    ¬ (p.take cfg req).Stops cfg req ↔
      req.type = .data ∧ (p.take cfg req).trascAggCnt < cfg.maxBulkoutWdNum := by
  unfold Pre.Stops
  rw [hcfg.aggregation]
  constructor
  · intro h
    obtain ⟨hwd, hrest⟩ := not_or.mp h
    exact ⟨not_not.mp (not_or.mp hrest).1, Nat.lt_of_not_le hwd⟩
  · rintro ⟨htype, hlt⟩ (hwd | htype' | hagg)
    · omega
    · exact htype' htype
    · cases hagg

/-- One request without dummy bytes, in both loops. -/
theorem Sim.pass (h : Sim p loc) (hcfg : AggBuild cfg) (hacc : Accounted ofst req)
    (hfirst : req.type = .data ∨ p.cnt = 0 ∧ p.packetLen = 0) (hmarks : marks loc = false)
    (hrej : ¬ p.Rejects cfg req) :
    ∃ loc' go, xmitPass cfg ofst loc req = some (loc', go) ∧ Sent cfg loc loc' req go ∧
      loc'.txLen = p.newLen req ∧ (go = true ↔ ¬ (p.take cfg req).Stops cfg req) ∧
      (go = true → Sim (p.take cfg req) loc') := by
  have hfirst' : req.type = .data ∨ loc.txLen = 0 ∧ loc.packetLen = 0 :=
    hfirst.imp_right fun h0 => ⟨h.txLen.trans (h.sized.running.txLen.mpr h0.1),
      h.packetLen.trans h0.2⟩
  obtain ⟨loc', go, hpass, hsent⟩ := xmitPass_sent hcfg hacc hfirst'
    (mt (h.rejects_iff hcfg hacc.wdinfoEn hmarks).mp hrej)
  have hlen : wdLen loc req = maxWdLen req := by
    rw [wdLen, hmarks]
    rfl
  have htx : loc'.txLen = p.newLen req := by
    rw [hsent.txLen, hlen, h.txLen, h.packetLen]
    rfl
  have htrasc (htype : req.type = .data) :
      loc'.trascAggCnt = (p.take cfg req).trascAggCnt := by
    rw [hsent.trascAggCnt htype, htx, h.trascAggCnt, h.trascIdx]
    rfl
  have hgo : go = true ↔ ¬ (p.take cfg req).Stops cfg req := by
    rw [hsent.go_iff, Pre.take_stops_iff hcfg]
    exact and_congr_right fun htype => by rw [htrasc htype]
  refine ⟨loc', go, hpass, hsent, htx, hgo, fun htrue => ?_⟩
  have htype := (hsent.go_iff.mp htrue).1
  have hcnt := h.sized.cnt_lt
  refine ⟨h.sized.take hcfg hacc.wdinfoEn hrej, ?_, htx, ?_, htrasc htype, ?_, ?_⟩
  · rw [hsent.aggCnt, h.aggCnt, Nat.mod_eq_of_lt (by omega)]
    rfl
  · rw [hsent.packetLen, hlen]
    rfl
  · rw [hsent.trascIdx htype, htx, h.trascIdx]
    rfl
  · rw [hsent.segs, h.segs]
    rfl

/-- What the requests of a ring have in common. -/
structure AllAccounted (ofst : XmitReq → Bool) (reqs : List XmitReq) : Prop where
  accounted : ∀ req ∈ reqs, Accounted ofst req
  /-- They are all of one type. -/
  type : ∀ req ∈ reqs, ∀ req' ∈ reqs, req.type = req'.type

theorem AllAccounted.tail (h : AllAccounted ofst (req :: reqs)) : AllAccounted ofst reqs where
  accounted := fun req' h' => h.accounted req' (List.mem_cons_of_mem _ h')
  type := fun a ha b hb => h.type a (List.mem_cons_of_mem _ ha) b (List.mem_cons_of_mem _ hb)

theorem AllAccounted.head (h : AllAccounted ofst (req :: reqs)) : Accounted ofst req :=
  h.accounted req (List.mem_cons_self ..)

/-- Behind the first request of a transfer there is only data. -/
def OnlyData (p : Pre) (reqs : List XmitReq) : Prop :=
  (p.cnt = 0 ∧ p.packetLen = 0) ∨ ∀ req ∈ reqs, req.type = .data

theorem OnlyData.first (h : OnlyData p (req :: reqs)) :
    req.type = .data ∨ p.cnt = 0 ∧ p.packetLen = 0 :=
  h.symm.imp_left fun hall => hall req (List.mem_cons_self ..)

theorem OnlyData.next (hall : AllAccounted ofst (req :: reqs))
    (hgo : ¬ (p.take cfg req).Stops cfg req) (hcfg : AggBuild cfg) :
    OnlyData (p.take cfg req) reqs := by
  have htype := ((Pre.take_stops_iff hcfg).mp hgo).1
  exact .inr fun req' h' =>
    (hall.type req' (List.mem_cons_of_mem _ h') req (List.mem_cons_self ..)).trans htype

end

/-! ## Main result -/

/-- The two aggregations agree: the request that the dry run marks is the last one that is copied,
and the transfer does not end at the end of a bulk. -/
def Agrees (cfg : TxCfg) (ring : TxRing) (reqBusy : ℕ) (ofst : XmitReq → Bool) : Prop :=
  (usbTxAggPreprocess cfg ring reqBusy).1 =
      markedIdx (handleXmitRingUsb cfg ring reqBusy ofst).segs.length ∧
    ((handleXmitRingUsb cfg ring reqBusy ofst).pstatus = .success →
      (handleXmitRingUsb cfg ring reqBusy ofst).txLen % cfg.bulkoutSize ≠ 0)

section
variable {cfg : TxCfg} {ofst : XmitReq → Bool} {loc : Loc} {reqs : List XmitReq}

end

end Rtl88x2cu.Trx.UsbTx
