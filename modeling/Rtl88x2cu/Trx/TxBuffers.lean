import Mathlib.Algebra.Order.Ring.Nat
import Mathlib.Data.List.Perm.Basic
import Rtl88x2cu.Trx.TxRing

/-!
# What the transmit path sends

A request is recycled to the core as soon as it has been copied into a USB buffer. This module
relates the recycled requests to the buffers that reach the bus: as long as nothing goes wrong
after a request has been recycled, every recycled request is in one submitted buffer, whole, and
every other request is still in its ring. The USB buffers are neither lost nor mixed up between
the two pools.

What can go wrong is collected in `SendOk`: `os_usb_tx` may refuse the buffer; in an aggregate, a
later request may fail to be prepared, or, being no data frame, be copied over the first one; the
copy may be longer than the buffer, since the size check uses `tx_buf_size` for the smaller
management buffers too; and freeing a ring recycles what is left in it.
-/

namespace Rtl88x2cu.Trx.UsbTx

variable {cfg : TxCfg} {s s' : State} {k : RingId} {buf : UsbBuf} {loc loc' : Loc}
  {req : XmitReq} {rest : List (RingId × ℕ)}

/-! ## Conditions -/

/-- The rings of the free list are empty. -/
def FreesNothing (s : State) : Prop :=
  ∀ l ∈ s.tRingFreeList, ∀ tid : Fin 10, freeRing (s.ring ⟨l, tid⟩) = []

/-- A request that is added to an aggregate is a data frame and is prepared, and what is
prepared fits into the buffer. -/
def CopyOk (cfg : TxCfg) (s : State) (k : RingId) (buf : UsbBuf) (loc : Loc)
    (fillWd : Option ℕ) : Prop :=
  ∀ req ∈ (s.ring k).entry (toU16 (s.ring k).phlNextIdx), ∀ loc' ∈ beforePrepare cfg loc req,
    (loc.segs ≠ [] → req.type = .data ∧
      (prepareTxUsb loc' req (pktOfstOf s loc req) fillWd).pstatus = .success) ∧
    ((prepareTxUsb loc' req (pktOfstOf s loc req) fillWd).pstatus = .success →
      (prepareTxUsb loc' req (pktOfstOf s loc req) fillWd).txLen ≤ buf.bufLen)

/-- Nothing goes wrong in a step of the handler after a request has been recycled. -/
def HandlerOk (cfg : TxCfg) (s : State) (fillWd : Option ℕ) (urb : Bool) : Pc → Prop
  | .next [] => FreesNothing s
  | .loop k buf loc _ => loc.reqBusy ≠ 0 → CopyOk cfg s k buf loc fillWd
  | .leave _ _ loc _ => loc.pstatus = .success → urb = true
  | _ => True

/-- Nothing goes wrong after a request has been recycled. -/
def SendOk (cfg : TxCfg) (s : State) : Event → Prop
  | .handler fillWd urb => HandlerOk cfg s fillWd urb s.pc
  | .datapathStop => FreesNothing s
  | _ => True

instance (s : State) : Decidable (FreesNothing s) :=
  inferInstanceAs (Decidable (∀ l ∈ s.tRingFreeList, ∀ tid : Fin 10,
    freeRing (s.ring ⟨l, tid⟩) = []))

instance (cfg : TxCfg) (s : State) (k : RingId) (buf : UsbBuf) (loc : Loc) (fillWd : Option ℕ) :
    Decidable (CopyOk cfg s k buf loc fillWd) := by
  unfold CopyOk
  infer_instance

instance (cfg : TxCfg) (s : State) (fillWd : Option ℕ) (urb : Bool) (pc : Pc) :
    Decidable (HandlerOk cfg s fillWd urb pc) :=
  match pc with
  | .next [] => inferInstanceAs (Decidable (FreesNothing s))
  | .loop k buf loc _ =>
    inferInstanceAs (Decidable (loc.reqBusy ≠ 0 → CopyOk cfg s k buf loc fillWd))
  | .leave _ _ loc _ => inferInstanceAs (Decidable (loc.pstatus = .success → urb = true))
  | .idle | .next (_ :: _) | .prepared .. | .advance .. => isTrue trivial

instance (cfg : TxCfg) (s : State) (e : Event) : Decidable (SendOk cfg s e) :=
  match e with
  | .handler fillWd urb => inferInstanceAs (Decidable (HandlerOk cfg s fillWd urb s.pc))
  | .datapathStop => inferInstanceAs (Decidable (FreesNothing s))
  | .add .. | .addStep | .deregister _ | .callback _ | .complete _ => isTrue trivial

/-! ## The buffer being filled -/

/-- The requests lie in the buffer one after the other, each with its descriptor and all of its
fragments. -/
structure Filled (buf : UsbBuf) (segs : List Segment) (len : ℕ) : Prop where
  apart : segs.Pairwise fun a b => a.ofs + a.len ≤ b.ofs
  inside : ∀ a ∈ segs, a.ofs + a.len ≤ len
  fits : len ≤ buf.bufLen
  whole : ∀ a ∈ segs, ∃ ofst wdLen, a.len = copyLen a.req ofst wdLen

/-- The variables of the loop describe the buffer. -/
structure LocOk (buf : UsbBuf) (loc : Loc) : Prop where
  filled : Filled buf loc.segs loc.txLen
  txLen_eq : loc.txLen = loc.txBufData + loc.packetLen
  start : loc.segs = [] → loc.txBufData = 0 ∧ loc.packetLen = 0
  pstatus_eq : loc.pstatus = if loc.segs = [] then .failure else .success

/-- What the running handler knows of its buffer. Without aggregation the loop stops after one
request. -/
def FillOk (cfg : TxCfg) : Pc → Prop
  | .loop _ buf loc _ =>
    LocOk buf loc ∧ (cfg.aggregation = false → loc.segs = [] ∧ loc.aggCnt = 0)
  | .prepared _ buf loc _ _ _ | .advance _ buf loc _ _ =>
    LocOk buf loc ∧ loc.segs ≠ [] ∧ (cfg.aggregation = false → loc.aggCnt = 0)
  | .leave _ buf loc _ => loc.pstatus = .failure ∨ LocOk buf loc
  | _ => True

/-- A preparation succeeds or fails. -/
theorem prepareTxUsb_pstatus {ofst : Bool} {fillWd : Option ℕ}
    (h : (prepareTxUsb loc req ofst fillWd).pstatus ≠ .success) :
    (prepareTxUsb loc req ofst fillWd).pstatus = .failure := by
  cases fillWd with
  | none => rfl
  | some wdLen =>
    have hcases : txRecycle req = .success ∨ txRecycle req = .failure := by
      unfold txRecycle
      split
      · exact .inl rfl
      · exact .inr rfl
    exact hcases.resolve_left h

theorem prepareTxUsb_aggCnt {ofst : Bool} {fillWd : Option ℕ}
    (hb : beforePrepare cfg loc req = some loc') :
    (prepareTxUsb loc' req ofst fillWd).aggCnt = loc.aggCnt := by
  have hloc : loc'.aggCnt = loc.aggCnt := by
    obtain ⟨-, -, rfl⟩ | ⟨-, rfl⟩ := beforePrepare_cases hb
    · rfl
    · rfl
  rw [← hloc]
  cases fillWd <;> rfl

/-- The rest of the loop body only touches the counters. -/
theorem afterPrepare_eq (cfg : TxCfg) (loc : Loc) :
    ∃ trascAggCnt trascIdx, (afterPrepare cfg loc).1 =
      { loc with aggCnt := (loc.aggCnt + 1) % 256, trascAggCnt, trascIdx } := by
  unfold afterPrepare
  dsimp only
  split
  · exact ⟨_, _, rfl⟩
  split
  · split <;> exact ⟨_, _, rfl⟩
  · exact ⟨_, _, rfl⟩

theorem afterPrepare_single (hagg : cfg.aggregation = false) (hcnt : loc.aggCnt = 0) :
    (afterPrepare cfg loc).2 = false := by
  unfold afterPrepare
  rw [hagg, hcnt]
  dsimp only
  split
  · rfl
  · rfl

theorem LocOk.after (h : LocOk buf loc) : LocOk buf (afterPrepare cfg loc).1 := by
  obtain ⟨_, _, heq⟩ := afterPrepare_eq cfg loc
  rw [heq]
  exact ⟨h.filled, h.txLen_eq, h.start, h.pstatus_eq⟩

theorem le_align8 (len : ℕ) : len ≤ align8 len := by
  unfold align8
  omega

/-- Before a request is prepared, `tx_buf_data` is behind everything copied so far. -/
theorem LocOk.before (h : LocOk buf loc) (hb : beforePrepare cfg loc req = some loc')
    (hagg : loc.segs ≠ [] → cfg.aggregation = true ∧ req.type = .data) :
    loc'.segs = loc.segs ∧ loc'.txLen = loc'.txBufData ∧
      ∀ a ∈ loc.segs, a.ofs + a.len ≤ loc'.txBufData := by
  have hle := le_align8 loc.packetLen
  have hlen := h.txLen_eq
  obtain ⟨-, -, rfl⟩ | ⟨hno, rfl⟩ := beforePrepare_cases hb
  · refine ⟨rfl, ?_, fun a ha => ?_⟩
    · show (if loc.packetLen < align8 loc.packetLen then _ else _) = _ + _
      split <;> omega
    · have := h.filled.inside a ha
      show _ ≤ loc.txBufData + align8 loc.packetLen
      omega
  · -- the first request of a buffer
    have hnil : loc.segs = [] := by
      by_contra hne
      exact hno (hagg hne)
    obtain ⟨hofs, hpl⟩ := h.start hnil
    refine ⟨rfl, ?_, fun a ha => ?_⟩
    · show loc.txLen = loc.txBufData
      omega
    · rw [hnil] at ha
      cases ha

/-- A prepared request is behind the others. -/
theorem LocOk.prepare (h : LocOk buf loc) (hb : beforePrepare cfg loc req = some loc')
    (hagg : loc.segs ≠ [] → cfg.aggregation = true ∧ req.type = .data) {ofst : Bool}
    {fillWd : Option ℕ} (hok : (prepareTxUsb loc' req ofst fillWd).pstatus = .success)
    (hfits : (prepareTxUsb loc' req ofst fillWd).txLen ≤ buf.bufLen) :
    LocOk buf (prepareTxUsb loc' req ofst fillWd) ∧
      (prepareTxUsb loc' req ofst fillWd).segs.map (·.req) = loc.segs.map (·.req) ++ [req] := by
  obtain ⟨hsegs, htx, hbehind⟩ := h.before hb hagg
  cases fillWd with
  | none => cases hok
  | some wdLen =>
    have hmem : ∀ a ∈ loc'.segs ++ [⟨loc'.txBufData, copyLen req ofst wdLen, req⟩],
        a ∈ loc.segs ∨ a = ⟨loc'.txBufData, copyLen req ofst wdLen, req⟩ := by
      intro a ha
      rw [hsegs] at ha
      exact (List.mem_append.mp ha).imp id List.mem_singleton.mp
    have hne : (prepareTxUsb loc' req ofst (some wdLen)).segs ≠ [] :=
      List.append_ne_nil_of_right_ne_nil _ (List.cons_ne_nil _ _)
    refine ⟨⟨⟨?_, fun a ha => ?_, hfits, fun a ha => ?_⟩, ?_, fun hnil => ?_, ?_⟩, ?_⟩
    · show (loc'.segs ++ [_]).Pairwise _
      rw [hsegs, List.pairwise_append]
      refine ⟨h.filled.apart, List.pairwise_singleton _ _, fun a ha b hb => ?_⟩
      rw [List.mem_singleton.mp hb]
      exact hbehind a ha
    · show _ ≤ loc'.txLen + copyLen req ofst wdLen
      rcases hmem a ha with hold | rfl
      · have := hbehind a hold
        omega
      · rw [htx]
    · rcases hmem a ha with hold | rfl
      · exact h.filled.whole a hold
      · exact ⟨ofst, wdLen, rfl⟩
    · show loc'.txLen + copyLen req ofst wdLen = loc'.txBufData + copyLen req ofst wdLen
      rw [htx]
    · exact absurd hnil hne
    · rw [if_neg hne]
      exact hok
    · show (loc'.segs ++ [_]).map _ = _
      rw [hsegs, List.map_append]
      rfl

/-! ## Steps without buffers -/

/-- Nothing is recycled or submitted and no buffer is moved; the handler may have started. -/
structure Quiet (s s' : State) : Prop where
  consumed : s'.consumed = s.consumed
  submitted : s'.submitted = s.submitted
  mgmt : s'.mgmtTxbufList = s.mgmtTxbufList
  idle : s'.idleTxbufList = s.idleTxbufList
  inflight : s'.inflight = s.inflight
  pc : s'.pc = s.pc ∨ s.pc = .idle ∧ ∃ rest, s'.pc = .next rest

theorem addTxReq_quiet (hs : addTxReq s k req = some s') : Quiet s s' := by
  unfold addTxReq at hs
  split at hs
  · cases hs
  split at hs
  · obtain rfl := Option.some.inj hs
    exact ⟨rfl, rfl, rfl, rfl, rfl, .inl rfl⟩
  split at hs
  · obtain rfl := Option.some.inj hs
    exact ⟨rfl, rfl, rfl, rfl, rfl, .inl rfl⟩
  · obtain rfl := Option.some.inj hs
    exact ⟨rfl, rfl, rfl, rfl, rfl, .inl rfl⟩

theorem addStep_quiet (hs : addStep s = some s') : Quiet s s' := by
  unfold addStep at hs
  split at hs
  · cases hs
  · obtain rfl := Option.some.inj hs
    exact ⟨rfl, rfl, rfl, rfl, rfl, .inl rfl⟩
  · obtain rfl := Option.some.inj hs
    exact ⟨rfl, rfl, rfl, rfl, rfl, .inl rfl⟩

theorem deregisterTxRing_quiet {l : ℕ} (hs : deregisterTxRing s l = some s') : Quiet s s' := by
  unfold deregisterTxRing at hs
  split at hs
  · cases hs
  · obtain rfl := Option.some.inj hs
    exact ⟨rfl, rfl, rfl, rfl, rfl, .inl rfl⟩

theorem checkRings_quiet {order : List RingId} (hs : checkRings s order = some s') :
    Quiet s s' := by
  unfold checkRings at hs
  split at hs
  · split at hs
    · rename_i hpc
      obtain rfl := Option.some.inj hs
      exact ⟨rfl, rfl, rfl, rfl, rfl, .inr ⟨hpc, _, rfl⟩⟩
    · cases hs
  · cases hs

/-! ## Requests -/

/-- The requests of the ring `k` in the submitted buffers. -/
def sent (k : RingId) (subs : List Submission) : List XmitReq :=
  subs.flatMap fun b => if b.ring = k then b.segs.map (·.req) else []

/-- The requests of the ring `k` that have been recycled and whose buffer is not submitted
yet. -/
def filling (k : RingId) : Pc → List XmitReq
  | .loop k' _ loc _ | .prepared k' _ loc _ _ _ | .advance k' _ loc _ _ =>
    if k' = k then loc.segs.map (·.req) else []
  | .leave k' _ loc _ =>
    if k' = k ∧ loc.pstatus = .success then loc.segs.map (·.req) else []
  | _ => []

/-- Every recycled request is in a submitted buffer or in the one being filled, once; and the
submitted buffers hold their requests whole. -/
structure SendInv (cfg : TxCfg) (s : State) : Prop where
  consumed_eq : ∀ k, (s.consumed k).map Prod.fst = sent k s.submitted ++ filling k s.pc
  submitted : ∀ b ∈ s.submitted, Filled b.buf b.segs b.len
  fill : FillOk cfg s.pc

theorem sent_append (k : RingId) (subs : List Submission) (b : Submission) :
    sent k (subs ++ [b]) = sent k subs ++ if b.ring = k then b.segs.map (·.req) else [] := by
  unfold sent
  rw [List.flatMap_append, List.flatMap_singleton]

theorem sendInv_init (cfg : TxCfg) : SendInv cfg (init cfg) where
  consumed_eq := fun _ => rfl
  submitted := fun _ h => absurd h List.not_mem_nil
  fill := trivial

/-- A step that recycles and submits nothing. -/
theorem SendInv.frame (h : SendInv cfg s) (hcons : s'.consumed = s.consumed)
    (hsub : s'.submitted = s.submitted) (hfill : ∀ k, filling k s'.pc = filling k s.pc)
    (hpc : FillOk cfg s'.pc) : SendInv cfg s' := by
  refine ⟨fun k => ?_, ?_, hpc⟩
  · rw [hcons, hsub, hfill]
    exact h.consumed_eq k
  · rw [hsub]
    exact h.submitted

theorem SendInv.quiet (h : SendInv cfg s) (hq : Quiet s s') : SendInv cfg s' := by
  rcases hq.pc with hpc | ⟨hidle, rest, hpc⟩
  · refine h.frame hq.consumed hq.submitted (fun k => by rw [hpc]) ?_
    rw [hpc]
    exact h.fill
  · refine h.frame hq.consumed hq.submitted (fun k => ?_) ?_
    · rw [hpc, hidle]
      rfl
    · rw [hpc]
      trivial

theorem freeDeferred_consumed (hfree : FreesNothing s) :
    (freeDeferredTxRing s).consumed = s.consumed := by
  funext k
  show (ite _ _ _ : List _) = _
  by_cases hk : k.ringList ∈ s.tRingFreeList
  · rw [if_pos hk, hfree k.ringList hk k.tid, List.map_nil, List.append_nil]
  · rw [if_neg hk]

theorem SendInv.loopStep {fillWd : Option ℕ} (h : SendInv cfg s)
    (hpc : s.pc = .loop k buf loc rest)
    (hok : loc.reqBusy ≠ 0 → CopyOk cfg s k buf loc fillWd) :
    SendInv cfg (loopStep cfg s k buf loc rest fillWd) := by
  have hfill := h.fill
  rw [hpc] at hfill
  obtain ⟨hloc, hsingle⟩ := hfill
  obtain ⟨ofst, heq⟩ | ⟨req, ofst, loc', hbusy, hentry, hb, hfail, heq⟩ |
    ⟨req, ofst, loc', hbusy, hentry, hb, hsucc, heq⟩ :=
    loopStep_cases cfg s k buf loc rest fillWd
  · -- the loop is left with what has been copied so far
    rw [heq]
    refine h.frame rfl rfl (fun k' => ?_) (.inr hloc)
    rw [hpc]
    show (if k = k' ∧ loc.pstatus = .success then _ else _) = if k = k' then _ else _
    rw [hloc.pstatus_eq]
    by_cases hnil : loc.segs = []
    · rw [hnil]
      simp
    · rw [if_neg hnil]
      simp
  · -- nothing has been copied before the failure
    have hcopy := hok hbusy req hentry loc' hb
    have hnil : loc.segs = [] := by
      by_contra hne
      exact hfail (hcopy.1 hne).2
    rw [heq]
    refine h.frame rfl rfl (fun k' => ?_) (.inl ?_)
    · rw [hpc]
      show (if k = k' ∧ _ = RtwPhlStatus.success then _ else _) = if k = k' then _ else _
      rw [if_neg (fun hand => hfail hand.2), hnil]
      simp
    · exact prepareTxUsb_pstatus hfail
  · have hcopy := hok hbusy req hentry loc' hb
    have hagg : loc.segs ≠ [] → cfg.aggregation = true ∧ req.type = .data := by
      intro hne
      refine ⟨?_, (hcopy.1 hne).1⟩
      by_contra hno
      exact hne (hsingle (Bool.eq_false_of_not_eq_true hno)).1
    obtain ⟨hloc', hsegs⟩ := hloc.prepare hb hagg hsucc (hcopy.2 hsucc)
    rw [heq]
    refine ⟨fun k' => ?_, h.submitted, hloc', ?_, ?_⟩
    · have hcons := h.consumed_eq k'
      rw [hpc] at hcons
      show (Function.update s.consumed k _ k').map Prod.fst =
        sent k' s.submitted ++ if k = k' then (prepareTxUsb loc' req _ fillWd).segs.map _ else []
      by_cases hk : k' = k
      · subst hk
        rw [Function.update_self, List.map_append, hcons, if_pos rfl, hsegs]
        show (_ ++ if k' = k' then _ else _) ++ [req] = _
        rw [if_pos rfl, List.append_assoc]
      · rw [Function.update_of_ne hk, hcons, if_neg (Ne.symm hk)]
        show _ ++ (if k = k' then _ else _) = _
        rw [if_neg (Ne.symm hk)]
    · intro hnil
      have := congrArg (List.map (·.req)) hnil
      rw [hsegs] at this
      simp at this
    · intro hno
      rw [prepareTxUsb_aggCnt hb]
      exact (hsingle hno).2

theorem SendInv.nextRing {n : ℕ} (h : SendInv cfg s) (hpc : s.pc = .next ((k, n) :: rest)) :
    SendInv cfg (nextRing cfg s k n rest) := by
  have hcons := h.consumed_eq
  rw [hpc] at hcons
  have hstart : ∀ (buf : UsbBuf) (lastIdx : ℕ) (isDummy : Bool),
      FillOk cfg (.loop k buf { reqBusy := n, lastIdx, isDummy } rest) := by
    intro buf lastIdx isDummy
    refine ⟨⟨⟨List.Pairwise.nil, ?_, Nat.zero_le _, ?_⟩, rfl, fun _ => ⟨rfl, rfl⟩, rfl⟩,
      fun _ => ⟨rfl, rfl⟩⟩
    · exact fun a ha => absurd ha List.not_mem_nil
    · exact fun a ha => absurd ha List.not_mem_nil
  unfold UsbTx.nextRing
  dsimp only
  split <;> split
  · exact ⟨hcons, h.submitted, trivial⟩
  · refine ⟨fun k' => ?_, h.submitted, hstart _ _ _⟩
    rw [hcons k']
    show _ = _ ++ if k = k' then [] else []
    rw [ite_self]
    rfl
  · exact ⟨hcons, h.submitted, trivial⟩
  · refine ⟨fun k' => ?_, h.submitted, hstart _ _ _⟩
    rw [hcons k']
    show _ = _ ++ if k = k' then [] else []
    rw [ite_self]
    rfl

theorem SendInv.advanceStep {rptr : ℕ} (h : SendInv cfg s)
    (hpc : s.pc = .advance k buf loc rptr rest) :
    SendInv cfg (advanceStep cfg s k buf loc rptr rest) := by
  have hcons := h.consumed_eq
  have hfill := h.fill
  rw [hpc] at hcons hfill
  obtain ⟨hloc, hne, hsingle⟩ := hfill
  have hloc' : LocOk buf (afterPrepare cfg loc).1 := hloc.after
  have hsegs : (afterPrepare cfg loc).1.segs = loc.segs := by
    obtain ⟨_, _, heq⟩ := afterPrepare_eq cfg loc
    rw [heq]
  have hloop : ∀ k', filling k' (.loop k buf (afterPrepare cfg loc).1 rest) =
      filling k' (.advance k buf loc rptr rest) := by
    intro k'
    show (if k = k' then List.map _ (afterPrepare cfg loc).1.segs else []) = _
    rw [hsegs]
    rfl
  unfold UsbTx.advanceStep
  split
  · refine ⟨fun k' => ?_, h.submitted, .inr hloc'⟩
    rw [hcons k']
    show _ = _ ++ if k = k' ∧ (afterPrepare cfg loc).1.pstatus = .success then
      List.map _ (afterPrepare cfg loc).1.segs else []
    rw [hloc'.pstatus_eq, hsegs, if_neg hne]
    simp only [and_true]
    rfl
  rename_i hgo
  have hagg : cfg.aggregation = false →
      (afterPrepare cfg loc).1.segs = [] ∧ (afterPrepare cfg loc).1.aggCnt = 0 :=
    fun hno => absurd (afterPrepare_single hno (hsingle hno)) hgo
  split
  · refine ⟨fun k' => ?_, h.submitted, hloc', hagg⟩
    rw [hcons k']
    exact congrArg _ (hloop k').symm
  · refine ⟨fun k' => ?_, h.submitted, hloc', hagg⟩
    rw [hcons k']
    exact congrArg _ (hloop k').symm

theorem SendInv.leaveStep {urb : Bool} (h : SendInv cfg s) (hpc : s.pc = .leave k buf loc rest)
    (hok : loc.pstatus = .success → urb = true) :
    SendInv cfg (leaveStep s k buf loc rest urb) := by
  have hcons := h.consumed_eq
  have hfill := h.fill
  rw [hpc] at hcons hfill
  unfold UsbTx.leaveStep
  split
  · rename_i hsub
    have hloc : LocOk buf loc := by
      refine hfill.resolve_left fun hfail => ?_
      rw [hsub.1] at hfail
      cases hfail
    refine ⟨fun k' => ?_, fun b hb => ?_, trivial⟩
    · rw [hcons k']
      show sent k' s.submitted ++ (if k = k' ∧ loc.pstatus = .success then _ else _) =
        sent k' (s.submitted ++ [_]) ++ []
      rw [sent_append, List.append_nil, hsub.1]
      simp only [and_true]
    · rcases List.mem_append.mp hb with hold | hnew
      · exact h.submitted b hold
      · rw [List.mem_singleton.mp hnew]
        exact hloc.filled
  · rename_i hnosub
    have hfail : loc.pstatus ≠ .success := fun hs => hnosub ⟨hs, hok hs⟩
    -- nothing of this buffer has been recycled
    have hnone : ∀ k', filling k' (.leave k buf loc rest) = [] := by
      intro k'
      exact if_neg fun hand => hfail hand.2
    have hcons' : ∀ k', (s.consumed k').map Prod.fst = sent k' s.submitted ++ [] := by
      intro k'
      rw [hcons k', hnone k']
    split
    · exact ⟨hcons', h.submitted, trivial⟩
    split
    · exact ⟨hcons', h.submitted, trivial⟩
    · exact ⟨hcons', h.submitted, trivial⟩

theorem SendInv.handlerStep {fillWd : Option ℕ} {urb : Bool} (h : SendInv cfg s)
    (hok : SendOk cfg s (.handler fillWd urb)) (hs : handlerStep cfg s fillWd urb = some s') :
    SendInv cfg s' := by
  unfold SendOk HandlerOk at hok
  unfold UsbTx.handlerStep at hs
  split at hs
  · cases hs
  · rename_i hpc
    rw [hpc] at hok
    obtain rfl := Option.some.inj hs
    refine h.frame (freeDeferred_consumed hok) rfl (fun k => ?_) trivial
    rw [hpc]
    rfl
  · rename_i hpc
    split at hs
    · cases hs
    · obtain rfl := Option.some.inj hs
      exact h.nextRing hpc
  · rename_i hpc
    rw [hpc] at hok
    split at hs
    · cases hs
    · obtain rfl := Option.some.inj hs
      exact h.loopStep hpc hok
  · rename_i hpc
    split at hs
    · cases hs
    · obtain rfl := Option.some.inj hs
      have hfill := h.fill
      rw [hpc] at hfill
      refine h.frame rfl rfl (fun k => ?_) ⟨?_, hfill.2.1, hfill.2.2⟩
      · rw [hpc]
        rfl
      · exact ⟨hfill.1.filled, hfill.1.txLen_eq, hfill.1.start, hfill.1.pstatus_eq⟩
  · rename_i hpc
    split at hs
    · cases hs
    · obtain rfl := Option.some.inj hs
      exact h.advanceStep hpc
  · rename_i hpc
    rw [hpc] at hok
    split at hs
    · cases hs
    · obtain rfl := Option.some.inj hs
      exact h.leaveStep hpc hok

theorem SendInv.step {e : Event} (h : SendInv cfg s) (hok : SendOk cfg s e)
    (hs : step cfg s e = some s') : SendInv cfg s' := by
  cases e with
  | add k req => exact h.quiet (addTxReq_quiet hs)
  | addStep => exact h.quiet (addStep_quiet hs)
  | deregister l => exact h.quiet (deregisterTxRing_quiet hs)
  | callback order => exact h.quiet (checkRings_quiet hs)
  | handler fillWd urb => exact h.handlerStep hok hs
  | datapathStop =>
    obtain rfl := Option.some.inj hs
    exact h.frame (freeDeferred_consumed hok) rfl (fun _ => rfl) h.fill
  | complete i =>
    simp only [UsbTx.step] at hs
    split at hs
    · cases hs
    · obtain rfl := Option.some.inj hs
      unfold txReleaseBufUsb
      split <;> exact h.frame rfl rfl (fun _ => rfl) h.fill

/-! ## Buffers -/

/-- The buffer in the hands of the handler, and the ring it is for. -/
def heldBuf : Pc → Option (RingId × UsbBuf)
  | .loop k buf _ _ | .prepared k buf _ _ _ _ | .advance k buf _ _ _ | .leave k buf _ _ =>
    some (k, buf)
  | _ => none

/-- The type of the buffers that a ring takes. -/
def poolType (k : RingId) : PktType := if k.tid = mgmtTid then .mgnt else .data

/-- All buffers, wherever they are. -/
def buffers (s : State) : List UsbBuf :=
  s.mgmtTxbufList ++ s.idleTxbufList ++ s.inflight ++ (heldBuf s.pc).toList.map Prod.snd

/-- No buffer is lost, and each pool has its own. -/
structure PoolInv (cfg : TxCfg) (s : State) : Prop where
  all : (buffers s).Perm (buffers (init cfg))
  mgmt : ∀ b ∈ s.mgmtTxbufList, b.type = .mgnt
  idle : ∀ b ∈ s.idleTxbufList, b.type = .data
  inflight : ∀ b ∈ s.inflight, b.type = .mgnt ∨ b.type = .data
  held : ∀ k b, heldBuf s.pc = some (k, b) → b.type = poolType k

theorem poolInv_init (cfg : TxCfg) : PoolInv cfg (init cfg) where
  all := List.Perm.refl _
  mgmt := by
    intro b hb
    obtain ⟨i, -, rfl⟩ := List.mem_map.mp hb
    rfl
  idle := by
    intro b hb
    obtain ⟨i, -, rfl⟩ := List.mem_map.mp hb
    rfl
  inflight := fun _ h => absurd h List.not_mem_nil
  held := fun _ _ h => by cases h

/-- A step that moves no buffer. -/
theorem PoolInv.frame (h : PoolInv cfg s) (hm : s'.mgmtTxbufList = s.mgmtTxbufList)
    (hi : s'.idleTxbufList = s.idleTxbufList) (hf : s'.inflight = s.inflight)
    (hh : heldBuf s'.pc = heldBuf s.pc) : PoolInv cfg s' := by
  refine ⟨?_, ?_, ?_, ?_, ?_⟩
  · have := h.all
    unfold buffers at this ⊢
    rwa [hm, hi, hf, hh]
  · rw [hm]
    exact h.mgmt
  · rw [hi]
    exact h.idle
  · rw [hf]
    exact h.inflight
  · rw [hh]
    exact h.held

theorem PoolInv.quiet (h : PoolInv cfg s) (hq : Quiet s s') : PoolInv cfg s' := by
  refine h.frame hq.mgmt hq.idle hq.inflight ?_
  rcases hq.pc with hpc | ⟨hidle, rest, hpc⟩
  · rw [hpc]
  · rw [hpc, hidle]
    rfl

theorem PoolInv.nextRing {n : ℕ} (h : PoolInv cfg s) (hpc : s.pc = .next ((k, n) :: rest)) :
    PoolInv cfg (nextRing cfg s k n rest) := by
  have hall := h.all
  unfold buffers at hall
  rw [hpc] at hall
  unfold UsbTx.nextRing
  dsimp only
  split
  · rename_i htid
    split
    · exact h.frame rfl rfl rfl (by rw [hpc]; rfl)
    · rename_i buf bufs hbufs
      have hmgmt := h.mgmt
      rw [hbufs] at hall hmgmt
      refine ⟨?_, fun b hb => hmgmt b (List.mem_cons_of_mem _ hb), h.idle, h.inflight, ?_⟩
      · refine List.Perm.trans ?_ hall
        rw [List.perm_iff_count]
        intro b
        simp only [buffers, heldBuf, List.count_append, List.count_cons, Option.toList_some,
          Option.toList_none, List.map_cons, List.map_nil, List.count_nil]
        omega
      · intro k' b hb
        obtain ⟨rfl, rfl⟩ := Prod.mk.inj (Option.some.inj hb)
        rw [poolType, if_pos htid]
        exact hmgmt buf List.mem_cons_self
  · rename_i htid
    split
    · exact h.frame rfl rfl rfl (by rw [hpc]; rfl)
    · rename_i buf bufs hbufs
      have hidle := h.idle
      rw [hbufs] at hall hidle
      refine ⟨?_, h.mgmt, fun b hb => hidle b (List.mem_cons_of_mem _ hb), h.inflight, ?_⟩
      · refine List.Perm.trans ?_ hall
        rw [List.perm_iff_count]
        intro b
        simp only [buffers, heldBuf, List.count_append, List.count_cons, Option.toList_some,
          Option.toList_none, List.map_cons, List.map_nil, List.count_nil]
        omega
      · intro k' b hb
        obtain ⟨rfl, rfl⟩ := Prod.mk.inj (Option.some.inj hb)
        rw [poolType, if_neg htid]
        exact hidle buf List.mem_cons_self

theorem PoolInv.leaveStep {urb : Bool} (h : PoolInv cfg s) (hpc : s.pc = .leave k buf loc rest)
    (hres : loc.pstatus ≠ .resource) : PoolInv cfg (leaveStep s k buf loc rest urb) := by
  have hall := h.all
  unfold buffers at hall
  rw [hpc] at hall
  have htype : buf.type = poolType k := h.held k buf (by rw [hpc]; rfl)
  have hput : ∀ {t : State}, (buffers t).Perm (s.mgmtTxbufList ++ s.idleTxbufList ++ s.inflight ++
      [buf]) → (buffers t).Perm (buffers (init cfg)) := fun hp => hp.trans hall
  unfold UsbTx.leaveStep
  split
  · refine ⟨hput ?_, h.mgmt, h.idle, fun b hb => ?_, fun _ _ hb => by cases hb⟩
    · rw [List.perm_iff_count]
      intro b
      simp only [buffers, heldBuf, List.count_append, Option.toList_none, List.map_nil,
        List.count_nil]
      omega
    · rcases List.mem_append.mp hb with hold | hnew
      · exact h.inflight b hold
      · rw [List.mem_singleton.mp hnew, htype, poolType]
        split
        · exact .inl rfl
        · exact .inr rfl
  split
  · rename_i htid
    refine ⟨hput ?_, fun b hb => ?_, h.idle, h.inflight, fun _ _ hb => by cases hb⟩
    · rw [List.perm_iff_count]
      intro b
      simp only [buffers, heldBuf, List.count_append, Option.toList_none, List.map_nil,
        List.count_nil]
      omega
    · rcases List.mem_append.mp hb with hold | hnew
      · exact h.mgmt b hold
      · rw [List.mem_singleton.mp hnew, htype, poolType, if_pos htid]
  · rename_i htid
    refine ⟨hput ?_, h.mgmt, fun b hb => ?_, h.inflight, fun _ _ hb => by cases hb⟩
    · rw [List.perm_iff_count]
      intro b
      simp only [buffers, heldBuf, List.count_append, Option.toList_none, List.map_nil,
        List.count_nil]
      omega
    · rcases List.mem_append.mp hb with hold | hnew
      · exact h.idle b hold
      · rw [List.mem_singleton.mp hnew, htype, poolType, if_neg htid]

/-- A buffer that the bus is done with goes back to the pool of its type. -/
theorem PoolInv.complete {i : ℕ} (h : PoolInv cfg s) (hbuf : s.inflight[i]? = some buf) :
    PoolInv cfg (txReleaseBufUsb { s with inflight := s.inflight.eraseIdx i } buf) := by
  obtain ⟨hi, rfl⟩ := List.getElem?_eq_some_iff.mp hbuf
  have hcount : ∀ b, (s.inflight[i] :: s.inflight.eraseIdx i).count b = s.inflight.count b :=
    fun b => (List.getElem_cons_eraseIdx_perm hi).count_eq b
  have hall := h.all
  have hrest : ∀ b ∈ s.inflight.eraseIdx i, b.type = .mgnt ∨ b.type = .data :=
    fun b hb => h.inflight b (List.mem_of_mem_eraseIdx hb)
  unfold txReleaseBufUsb
  rcases h.inflight _ (List.getElem_mem hi) with htype | htype
  · rw [htype]
    refine ⟨List.Perm.trans ?_ hall, fun b hb => ?_, h.idle, hrest, h.held⟩
    · rw [List.perm_iff_count]
      intro b
      have := hcount b
      rw [List.count_cons] at this
      simp only [buffers, List.count_append, List.count_singleton]
      omega
    · rcases List.mem_append.mp hb with hold | hnew
      · exact h.mgmt b hold
      · rw [List.mem_singleton.mp hnew]
        exact htype
  · rw [htype]
    refine ⟨List.Perm.trans ?_ hall, h.mgmt, fun b hb => ?_, hrest, h.held⟩
    · rw [List.perm_iff_count]
      intro b
      have := hcount b
      rw [List.count_cons] at this
      simp only [buffers, List.count_append, List.count_singleton]
      omega
    · rcases List.mem_append.mp hb with hold | hnew
      · exact h.idle b hold
      · rw [List.mem_singleton.mp hnew]
        exact htype

theorem PoolInv.handlerStep {fillWd : Option ℕ} {urb : Bool} (h : PoolInv cfg s)
    (hfill : FillOk cfg s.pc) (hs : handlerStep cfg s fillWd urb = some s') : PoolInv cfg s' := by
  unfold UsbTx.handlerStep at hs
  split at hs
  · cases hs
  · rename_i hpc
    obtain rfl := Option.some.inj hs
    exact h.frame rfl rfl rfl (by rw [hpc]; rfl)
  · rename_i hpc
    split at hs
    · cases hs
    · obtain rfl := Option.some.inj hs
      exact h.nextRing hpc
  · rename_i k buf loc rest hpc
    split at hs
    · cases hs
    · obtain rfl := Option.some.inj hs
      obtain ⟨_, heq⟩ | ⟨_, _, _, -, -, -, -, heq⟩ | ⟨_, _, _, -, -, -, -, heq⟩ :=
        loopStep_cases cfg s k buf loc rest fillWd
      all_goals
        rw [heq]
        exact h.frame rfl rfl rfl (by rw [hpc]; rfl)
  · rename_i hpc
    split at hs
    · cases hs
    · obtain rfl := Option.some.inj hs
      exact h.frame rfl rfl rfl (by rw [hpc]; rfl)
  · rename_i hpc
    split at hs
    · cases hs
    · obtain rfl := Option.some.inj hs
      unfold advanceStep
      split
      · exact h.frame rfl rfl rfl (by rw [hpc]; rfl)
      split
      · exact h.frame rfl rfl rfl (by rw [hpc]; rfl)
      · exact h.frame rfl rfl rfl (by rw [hpc]; rfl)
  · rename_i hpc
    rw [hpc] at hfill
    split at hs
    · cases hs
    · obtain rfl := Option.some.inj hs
      refine h.leaveStep hpc fun hres => ?_
      rcases hfill with hfail | hloc
      · rw [hres] at hfail
        cases hfail
      · have := hloc.pstatus_eq
        rw [hres] at this
        split at this <;> cases this

theorem PoolInv.step {e : Event} (h : PoolInv cfg s) (hfill : FillOk cfg s.pc)
    (hs : step cfg s e = some s') : PoolInv cfg s' := by
  cases e with
  | add k req => exact h.quiet (addTxReq_quiet hs)
  | addStep => exact h.quiet (addStep_quiet hs)
  | deregister l => exact h.quiet (deregisterTxRing_quiet hs)
  | callback order => exact h.quiet (checkRings_quiet hs)
  | handler fillWd urb => exact h.handlerStep hfill hs
  | datapathStop =>
    obtain rfl := Option.some.inj hs
    exact h.frame rfl rfl rfl rfl
  | complete i =>
    simp only [UsbTx.step] at hs
    split at hs
    · cases hs
    · rename_i buf hbuf
      obtain rfl := Option.some.inj hs
      exact h.complete hbuf

/-! ## Runs -/

/-- In every run in which nothing goes wrong after a request has been recycled: every recycled
request is in one of the submitted buffers, or in the buffer being filled, once and whole; every
other accepted request is in its ring; and the USB buffers are in their own pool, on the bus or
with the handler. -/
theorem tx_sends_recycled {es : List Event}
    (hok : Guarded (step cfg) (fun s e => FreeOk s e ∧ SendOk cfg s e) (init cfg) es)
    (h : run (step cfg) (init cfg) es = some s) :
    (∀ k, (s.consumed k).map Prod.fst = sent k s.submitted ++ filling k s.pc) ∧
    (∀ b ∈ s.submitted, Filled b.buf b.segs b.len) ∧
    (∀ k, s.accepted k = (s.consumed k).map Prod.fst ++ unread s k) ∧
    (∀ k, s.life k.ringList ≠ .freed → ∀ (i : ℕ) (hi : i < (unread s k).length),
      (s.ring k).entry (slotOf s k i) = some (unread s k)[i]) ∧
    (buffers s).Perm (buffers (init cfg)) ∧
    (∀ b ∈ s.mgmtTxbufList, b.type = .mgnt) ∧ (∀ b ∈ s.idleTxbufList, b.type = .data) ∧
    (∀ k b, heldBuf s.pc = some (k, b) → b.type = poolType k) := by
  have hinv : Inv s ∧ SendInv cfg s ∧ PoolInv cfg s := by
    refine run_preserves (fun s => Inv s ∧ SendInv cfg s ∧ PoolInv cfg s) ?_
      ⟨inv_init cfg, sendInv_init cfg, poolInv_init cfg⟩ hok h
    rintro s e s' ⟨hr, hs, hp⟩ ⟨hfree, hsend⟩ hstep
    exact ⟨hr.step hfree hstep, hs.step hsend hstep, hp.step hs.fill hstep⟩
  obtain ⟨hr, hs, hp⟩ := hinv
  exact ⟨hs.consumed_eq, hs.submitted, hr.accepted_eq, fun k hk => hr.entry_eq hk, hp.all, hp.mgmt,
    hp.idle, hp.held⟩

/-- Two frames are added, and one of them is sent and comes back from the bus. -/
def sendOne : List Event :=
  [.add ring0 (frame 1), .addStep, .addStep, .add ring0 (frame 2), .addStep, .addStep,
    .callback [ring0], .handler none true, .handler (some 48) true, .handler none true,
    .handler none true, .handler none true, .handler none true, .complete 0]

theorem tx_sends_recycled_one :
    ∃ s, run (step cfg8822cu) (init cfg8822cu) sendOne = some s ∧
      s.consumed ring0 = [(frame 1, .handler)] ∧ unread s ring0 = [frame 2] ∧
      (s.consumed ring0).map Prod.fst = sent ring0 s.submitted ++ filling ring0 s.pc := by
  have hend : (run (step cfg8822cu) (init cfg8822cu) sendOne).map
      (fun s => (s.consumed ring0, unread s ring0)) =
        some ([(frame 1, .handler)], [frame 2]) := by decide +kernel
  obtain ⟨s, hs, hview⟩ := Option.map_eq_some_iff.mp hend
  obtain ⟨hconsumed, hunread⟩ := Prod.mk.inj hview
  exact ⟨s, hs, hconsumed, hunread,
    (tx_sends_recycled (show Guarded _ _ _ sendOne by decide +kernel) hs).1 ring0⟩

/-- The bus refuses the buffer of a request that has been recycled. -/
def refusedByBus : List Event :=
  [.add ring0 (frame 1), .addStep, .addStep, .callback [ring0], .handler none true,
    .handler (some 48) true, .handler none true, .handler none true, .handler none false,
    .handler none true]

/-- The request has been reported complete, nothing has been submitted, and the handler is
done. -/
theorem recycled_request_not_sent :
    ∃ s, run (step cfg8822cu) (init cfg8822cu) refusedByBus = some s ∧
      s.consumed ring0 = [(frame 1, .handler)] ∧ s.submitted = [] ∧ held s.pc = [] ∧
      unread s ring0 = [] ∧
      (s.consumed ring0).map Prod.fst ≠ sent ring0 s.submitted ++ filling ring0 s.pc := by
  have hend : (run (step cfg8822cu) (init cfg8822cu) refusedByBus).map
      (fun s => (s.consumed ring0, s.submitted, held s.pc, unread s ring0, filling ring0 s.pc)) =
        some ([(frame 1, .handler)], [], [], [], []) := by decide +kernel
  obtain ⟨s, hs, hview⟩ := Option.map_eq_some_iff.mp hend
  simp only [Prod.mk.injEq] at hview
  obtain ⟨hconsumed, hsub, hheld, hunread, hfill⟩ := hview
  refine ⟨s, hs, hconsumed, hsub, hheld, hunread, ?_⟩
  rw [hconsumed, hsub, hfill]
  decide

end Rtl88x2cu.Trx.UsbTx
