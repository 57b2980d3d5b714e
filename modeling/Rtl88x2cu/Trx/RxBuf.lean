import Mathlib.Algebra.Order.Ring.Nat
import Mathlib.Data.List.Count
import Rtl88x2cu.Lib.Run
import Rtl88x2cu.PhlQueue
import Rtl88x2cu.Trx.RingIndex

/-!
# The USB receive buffers

`_phl_in_token_usb` takes a buffer out of the idle queue and submits it, `phl_pend_rxbuf_usb` gets
it back from the bus, `phl_get_single_rx` parses it into packets, and `phl_recycle_rx_buf` counts
the packets that still hold it down (`phl/hci/phl_trx_usb.c`, `phl/phl_rx.c`). Every hand-over
takes the lock of a queue or of the buffer, and in between a function touches no buffer but its
own, so the functions are steps of the model.

Buffers are numbers below `block_cnt_alloc`. The only pipe ever used is `WLAN_IN_MPDU_PIPE_IDX`. A
packet is known by its `rxbuf_ptr`; what it carries, and the pool it comes from, are left out.
-/

namespace Rtl88x2cu.Trx.RxBuf

/-! ## Model -/

/-- `struct rtw_rx_buf_ring` with the fields of its buffers, the buffers submitted to the bus, and
the packets that have been parsed and not been recycled. -/
structure RxBufRing where
  idle : PhlQueue ℕ
  busy : PhlQueue ℕ
  pend : PhlQueue ℕ
  pktcnt : ℕ → ℕ
  transferLen : ℕ → ℕ
  urbs : List ℕ
  /-- `rxbuf_ptr` of each packet. -/
  pkts : List (Option ℕ)

/-- `_phl_rx_init_usb` for `n` buffers. -/
def init (n : ℕ) : RxBufRing where
  idle := { queue := List.range n, cnt := n }
  busy := pqInit
  pend := pqInit
  pktcnt := fun _ => 0
  transferLen := fun _ => 0
  urbs := []
  pkts := []

/-- `phl_release_rxbuf_usb`. -/
def phlReleaseRxbufUsb (s : RxBufRing) (rxBuf : ℕ) : RxBufRing :=
  let cnt := if s.pktcnt rxBuf ≠ 0 then s.pktcnt rxBuf - 1 else s.pktcnt rxBuf
  if cnt = 0 then
    { s with
      pktcnt := Function.update s.pktcnt rxBuf cnt
      idle := pqPush s.idle rxBuf }
  else
    { s with pktcnt := Function.update s.pktcnt rxBuf cnt }

/-- Whether `rtw_hal_query_info` and `os_send_usb_in_token` succeed. -/
structure InToken where
  query : Bool
  send : Bool
  deriving DecidableEq, Repr

/-- `_phl_in_token_usb`. When the query fails, the buffer that has been popped is put nowhere. -/
def phlInTokenUsb (s : RxBufRing) (tok : InToken) : RtwPhlStatus × RxBufRing :=
  match pqPop s.idle with
  | none => (.resource, s)
  | some (rxBuf, idle) =>
    if !tok.query then
      (.failure, { s with idle })
    else
      let busy := pqPush s.busy rxBuf
      if !tok.send then
        (.failure, phlReleaseRxbufUsb { s with idle, busy := pqDelNode busy rxBuf } rxBuf)
      else
        (.success, { s with idle, busy, urbs := s.urbs ++ [rxBuf] })

/-- The loop of `_phl_rx_start_usb`, entered with `pstatus`; the list says how each call of
`_phl_in_token_usb` ends. -/
def phlRxStartUsb (inTokenNum : ℤ) (s : RxBufRing) (pstatus : RtwPhlStatus) :
    List InToken → Option (RtwPhlStatus × RxBufRing)
  | [] => if s.busy.cnt < inTokenNum then none else some (pstatus, s)
  | tok :: toks =>
    if s.busy.cnt < inTokenNum then
      match phlInTokenUsb s tok with
      | (.success, s') => phlRxStartUsb inTokenNum s' .success toks
      | r => some r
    else
      some (pstatus, s)

/-- `phl_pend_rxbuf_usb`; `tok` is for the buffer submitted next. -/
def phlPendRxbufUsb (s : RxBufRing) (rxBuf inbufLen : ℕ) (success : Bool) (tok : InToken) :
    RxBufRing :=
  let busy := if s.busy.queue ≠ [] then pqDelNode s.busy rxBuf else s.busy
  if success then
    let transferLen := Function.update s.transferLen rxBuf inbufLen
    (phlInTokenUsb { s with busy, transferLen, pend := pqPush s.pend rxBuf } tok).2
  else
    phlReleaseRxbufUsb { s with busy } rxBuf

/-- What one iteration of `phl_get_single_rx` finds: whether there is a free `phl_rx`, where the
packet of the next descriptor begins and how long it is, whether it is of type `RTW_RX_TYPE_WIFI`,
and whether a network buffer can be allocated for it. -/
structure RxIter where
  phlRx : Bool
  offset : ℕ
  pktlen : ℕ
  wifi : Bool
  netbuf : Bool
  deriving DecidableEq, Repr

/-- `_ALIGN(pkt_offset, 8)`. -/
def RxIter.alignOffset (it : RxIter) : ℕ := (it.offset + it.pktlen + 7) / 8 * 8

/-- The packet is copied out of the buffer. -/
def RxIter.balloc (it : RxIter) : Bool := it.wifi && it.netbuf

/-- `rtw_hal_handle_rx_buffer`: the packet is not empty and ends within the transfer. -/
def RxIter.handleRxBuffer (it : RxIter) (transferLen : ℤ) : Bool :=
  it.pktlen ≠ 0 ∧ (it.offset + it.pktlen : ℕ) ≤ transferLen

/-- The variables of `phl_get_single_rx`. `phl_rxhead` is `NULL` when `pkts` is empty, and
`ref_cnt` has 8 bits. -/
structure Parse where
  transferLen : ℤ
  refCnt : ℕ
  brel : Bool
  pkts : List (Option ℕ)

/-- The packet of one iteration. -/
def Parse.packet (p : Parse) (rxBuf : ℕ) (it : RxIter) : Parse where
  transferLen := p.transferLen - it.alignOffset
  refCnt := if it.balloc then p.refCnt else (p.refCnt + 1) % 256
  brel := p.brel && it.balloc
  pkts := p.pkts ++ [if it.balloc then none else some rxBuf]

/-- The loop of `phl_get_single_rx`. -/
def parseLoop (rxBuf : ℕ) (p : Parse) : List RxIter → Option Parse
  | [] => none
  | it :: its =>
    if it.phlRx && it.handleRxBuffer p.transferLen then
      let p' := p.packet rxBuf it
      if 0 < p'.transferLen then parseLoop rxBuf p' its else some p'
    else
      some p

/-- `phl_get_single_rx`, with the packets linked to `phl_rxhead` if there are any. -/
def phlGetSingleRx (s : RxBufRing) (rxBuf : ℕ) (its : List RxIter) :
    Option (List (Option ℕ) × RxBufRing) :=
  (parseLoop rxBuf ⟨s.transferLen rxBuf, 0, true, []⟩ its).map fun p =>
    if p.pkts = [] then
      ([], s)
    else if p.brel then
      (p.pkts, phlReleaseRxbufUsb s rxBuf)
    else
      (p.pkts, { s with pktcnt := Function.update s.pktcnt rxBuf p.refCnt })

/-- One iteration of `phl_rx_usb`. -/
def phlRxUsb (s : RxBufRing) (its : List RxIter) : Option RxBufRing :=
  match pqPop s.pend with
  | none => some s
  | some (rxBuf, pend) =>
    (phlGetSingleRx { s with pend } rxBuf its).map fun (phlRx, s') =>
      if phlRx = [] then phlReleaseRxbufUsb s' rxBuf else { s' with pkts := s'.pkts ++ phlRx }

/-- `phl_recycle_rx_buf`. -/
def phlRecycleRxBuf (s : RxBufRing) (phlRx : Option ℕ) : RxBufRing :=
  let s' := match phlRx with
    | some rxBuf => phlReleaseRxbufUsb s rxBuf
    | none => s
  { s' with pkts := s'.pkts.erase phlRx }

inductive Event where
  /-- A call of `_phl_in_token_usb` from the loop of `_phl_rx_start_usb`. -/
  | inToken (tok : InToken)
  /-- The bus completes a submitted buffer, and `phl_pend_rxbuf_usb` is called. -/
  | complete (rxBuf inbufLen : ℕ) (success : Bool) (tok : InToken)
  /-- An iteration of `phl_rx_usb`. -/
  | rx (its : List RxIter)
  /-- A packet is recycled. -/
  | recycle (phlRx : Option ℕ)
  deriving DecidableEq

/-- One event; `none` for a buffer that is not submitted, a packet that is not there, and a list
that ends before the loop does. -/
def step (s : RxBufRing) : Event → Option RxBufRing
  | .inToken tok => some (phlInTokenUsb s tok).2
  | .complete rxBuf inbufLen success tok =>
    if rxBuf ∈ s.urbs then
      some (phlPendRxbufUsb { s with urbs := s.urbs.erase rxBuf } rxBuf inbufLen success tok)
    else
      none
  | .rx its => phlRxUsb s its
  | .recycle phlRx => if phlRx ∈ s.pkts then some (phlRecycleRxBuf s phlRx) else none

/-- `_phl_rx_start_usb` is a run of calls of `_phl_in_token_usb`. -/
theorem phlRxStartUsb_run {inTokenNum : ℤ} {s : RxBufRing} {pstatus : RtwPhlStatus}
    {toks : List InToken} {r : RtwPhlStatus × RxBufRing}
    (h : phlRxStartUsb inTokenNum s pstatus toks = some r) :
    ∃ toks', toks' <+: toks ∧ run step s (toks'.map .inToken) = some r.2 := by
  induction toks generalizing s pstatus with
  | nil =>
    unfold phlRxStartUsb at h
    split at h
    · cases h
    · obtain rfl := Option.some.inj h
      exact ⟨[], List.prefix_refl _, rfl⟩
  | cons tok toks ih =>
    unfold phlRxStartUsb at h
    split at h
    · have hrun (ts : List InToken) : run step s ((tok :: ts).map .inToken) =
          run step (phlInTokenUsb s tok).2 (ts.map .inToken) := rfl
      split at h
      next s' htok =>
        obtain ⟨toks', hpre, hr⟩ := ih h
        refine ⟨tok :: toks', List.prefix_cons_inj tok |>.mpr hpre, ?_⟩
        rw [hrun, htok]
        exact hr
      · obtain rfl := Option.some.inj h
        refine ⟨[tok], by simp, ?_⟩
        exact hrun []
    · obtain rfl := Option.some.inj h
      exact ⟨[], List.nil_prefix, rfl⟩

/-! ## Conditions -/

/-- The iterations of `phl_get_single_rx` that find a packet in a transfer of the given length. -/
def parsed (transferLen : ℤ) : List RxIter → List RxIter
  | [] => []
  | it :: its =>
    if it.phlRx && it.handleRxBuffer transferLen then
      if 0 < transferLen - it.alignOffset then it :: parsed (transferLen - it.alignOffset) its
      else [it]
    else
      []

/-- A transfer-info query made for a buffer succeeds, and no more than 255 packets of a transfer
go without a network buffer. -/
def InputOk (s : RxBufRing) : Event → Prop
  | .inToken tok => s.idle.queue ≠ [] → tok.query = true
  | .complete _ _ success tok => success = true → s.idle.queue ≠ [] → tok.query = true
  | .rx its => ∀ rxBuf ∈ s.pend.queue.head?,
    (parsed (s.transferLen rxBuf) its).countP (fun it => !it.balloc) ≤ 255
  | .recycle _ => True

instance (s : RxBufRing) (e : Event) : Decidable (InputOk s e) :=
  match e with
  | .inToken tok => inferInstanceAs (Decidable (s.idle.queue ≠ [] → tok.query = true))
  | .complete _ _ success tok =>
    inferInstanceAs (Decidable (success = true → s.idle.queue ≠ [] → tok.query = true))
  | .rx its => inferInstanceAs (Decidable (∀ rxBuf ∈ s.pend.queue.head?,
      (parsed (s.transferLen rxBuf) its).countP (fun it => !it.balloc) ≤ 255))
  | .recycle _ => isTrue trivial

/-! ## Invariant -/

/-- How often a buffer is in a place: in one of the queues, or held by packets. -/
def places (s : RxBufRing) (rxBuf : ℕ) : ℕ :=
  s.idle.queue.count rxBuf + s.busy.queue.count rxBuf + s.pend.queue.count rxBuf +
    if some rxBuf ∈ s.pkts then 1 else 0

/-- The buffers held by packets. -/
def held (n : ℕ) (s : RxBufRing) : List ℕ := (List.range n).filter fun rxBuf => some rxBuf ∈ s.pkts

/-- Each of the `n` buffers is in one place, or in the hands of the running function; `pktcnt`
is the number of packets that hold the buffer. -/
structure Inv (n : ℕ) (hand : List ℕ) (s : RxBufRing) : Prop where
  places_eq : ∀ rxBuf, places s rxBuf + hand.count rxBuf = if rxBuf < n then 1 else 0
  idle_wf : s.idle.Wf
  busy_wf : s.busy.Wf
  pend_wf : s.pend.Wf
  pktcnt_eq : ∀ rxBuf, s.pktcnt rxBuf = s.pkts.count (some rxBuf)
  urbs_eq : ∀ rxBuf, s.urbs.count rxBuf = s.busy.queue.count rxBuf

variable {n : ℕ} {s s' : RxBufRing} {b : ℕ}

theorem inv_init (n : ℕ) : Inv n [] (init n) where
  places_eq rxBuf := by simp [places, init, pqInit, List.nodup_range.count]
  idle_wf := by simp [init, PhlQueue.Wf]
  busy_wf := PhlQueue.wf_init
  pend_wf := PhlQueue.wf_init
  pktcnt_eq _ := rfl
  urbs_eq _ := rfl

/-- Pushing a node adds it once. -/
theorem count_push (q : PhlQueue ℕ) (x y : ℕ) :
    (pqPush q x).queue.count y = q.queue.count y + [x].count y := by
  simp only [pqPush, List.count_append]

theorem count_pop {q q' : PhlQueue ℕ} {x : ℕ} (h : pqPop q = some (x, q')) (y : ℕ) :
    q.queue.count y = q'.queue.count y + [x].count y := by
  rw [(PhlQueue.pop_spec h).1, ← List.singleton_append, List.count_append, Nat.add_comm]

theorem count_delNode {q : PhlQueue ℕ} {x : ℕ} (h : x ∈ q.queue) (y : ℕ) :
    q.queue.count y = (pqDelNode q x).queue.count y + [x].count y := by
  have hperm := (List.perm_cons_erase h).count_eq y
  rw [hperm, ← List.singleton_append, List.count_append, Nat.add_comm]
  rfl

/-- A buffer in the hands of a function is held by no packet. -/
theorem Inv.not_mem_pkts (h : Inv n [b] s) : some b ∉ s.pkts := by
  intro hmem
  have hb := h.places_eq b
  simp only [places, hmem, if_true, List.count_singleton_self] at hb
  split at hb <;> omega

theorem Inv.pktcnt_hand (h : Inv n [b] s) : s.pktcnt b = 0 := by
  rw [h.pktcnt_eq]
  exact List.count_eq_zero.mpr h.not_mem_pkts

/-- Releasing a buffer in hand puts it back. -/
theorem Inv.release (h : Inv n [b] s) : Inv n [] (phlReleaseRxbufUsb s b) := by
  have hcnt := h.pktcnt_hand
  have hupd : Function.update s.pktcnt b 0 = s.pktcnt := by
    rw [← hcnt]
    exact Function.update_eq_self b s.pktcnt
  simp only [phlReleaseRxbufUsb, hcnt, ne_eq, not_true_eq_false, if_false, if_true, hupd]
  refine ⟨fun x => ?_, h.idle_wf.push b, h.busy_wf, h.pend_wf, h.pktcnt_eq, h.urbs_eq⟩
  have hx := h.places_eq x
  simp only [places, count_push, List.count_nil] at hx ⊢
  omega

/-! ## Steps -/

/-- A token is only lost if the query fails. -/
theorem Inv.inToken (h : Inv n [] s) {tok : InToken}
    (hok : s.idle.queue ≠ [] → tok.query = true) : Inv n [] (phlInTokenUsb s tok).2 := by
  unfold phlInTokenUsb
  split
  · exact h
  next rxBuf idle hpop =>
    have hne : s.idle.queue ≠ [] := by simp [(PhlQueue.pop_spec hpop).1]
    have hidle := h.idle_wf.pop hpop
    simp only [hok hne, Bool.not_true, Bool.false_eq_true, if_false]
    split
    · -- the request could not be sent
      have hmem : rxBuf ∈ (pqPush s.busy rxBuf).queue := by simp [pqPush]
      refine Inv.release ⟨fun x => ?_, hidle, (h.busy_wf.push rxBuf).delNode hmem, h.pend_wf,
        h.pktcnt_eq, fun x => ?_⟩
      · have hx := h.places_eq x
        have hdel := count_delNode hmem x
        simp only [places, count_push, List.count_nil, count_pop hpop x] at hx hdel ⊢
        omega
      · have hdel := count_delNode hmem x
        rw [count_push] at hdel
        exact (h.urbs_eq x).trans (Nat.add_right_cancel hdel)
    · refine ⟨fun x => ?_, hidle, h.busy_wf.push rxBuf, h.pend_wf, h.pktcnt_eq, fun x => ?_⟩
      · have hx := h.places_eq x
        simp only [places, count_push, List.count_nil, count_pop hpop x] at hx ⊢
        omega
      · rw [List.count_append, count_push, h.urbs_eq x]

/-- A completed buffer goes to the pending queue, or back to the idle queue. -/
theorem Inv.complete (h : Inv n [] s) {inbufLen : ℕ} {success : Bool} {tok : InToken}
    (hb : b ∈ s.urbs) (hok : success = true → s.idle.queue ≠ [] → tok.query = true) :
    Inv n [] (phlPendRxbufUsb { s with urbs := s.urbs.erase b } b inbufLen success tok) := by
  have hmem : b ∈ s.busy.queue := by
    rw [← List.count_pos_iff, ← h.urbs_eq]
    exact List.count_pos_iff.mpr hb
  have hne : s.busy.queue ≠ [] := List.ne_nil_of_mem hmem
  have hbusy := h.busy_wf.delNode hmem
  have hurbs (x : ℕ) : (s.urbs.erase b).count x = (pqDelNode s.busy b).queue.count x := by
    have hdel := count_delNode hmem x
    have herase := (List.perm_cons_erase hb).count_eq x
    rw [← List.singleton_append, List.count_append] at herase
    have hx := h.urbs_eq x
    omega
  simp only [phlPendRxbufUsb, ne_eq, hne, not_false_eq_true, if_true]
  split
  next hsuccess =>
    apply Inv.inToken
    · refine ⟨fun x => ?_, h.idle_wf, hbusy, h.pend_wf.push b, h.pktcnt_eq, hurbs⟩
      have hx := h.places_eq x
      simp only [places, count_push, count_delNode hmem x] at hx ⊢
      omega
    · exact hok hsuccess
  · refine Inv.release ⟨fun x => ?_, h.idle_wf, hbusy, h.pend_wf, h.pktcnt_eq, hurbs⟩
    have hx := h.places_eq x
    simp only [places, count_delNode hmem x, List.count_nil] at hx ⊢
    omega

/-- The variables of the loop count the packets that hold the buffer. -/
structure ParseOk (b : ℕ) (p : Parse) : Prop where
  holder : ∀ q ∈ p.pkts, q = none ∨ q = some b
  refCnt_eq : p.refCnt = p.pkts.count (some b)
  brel_eq : p.brel = true ↔ some b ∉ p.pkts

theorem parseOk_init (b : ℕ) (len : ℤ) : ParseOk b ⟨len, 0, true, []⟩ where
  holder := by simp
  refCnt_eq := rfl
  brel_eq := by simp

theorem ParseOk.packet {p : Parse} {it : RxIter} (h : ParseOk b p)
    (hlt : it.balloc = false → p.refCnt < 255) : ParseOk b (p.packet b it) := by
  cases hb : it.balloc with
  | true =>
    refine ⟨fun q hq => ?_, ?_, ?_⟩
    · simp only [Parse.packet, hb, if_true, List.mem_append, List.mem_singleton] at hq
      exact hq.elim (h.holder q) .inl
    · simp [Parse.packet, hb, h.refCnt_eq]
    · simp [Parse.packet, hb, h.brel_eq]
  | false =>
    have hmod : (p.refCnt + 1) % 256 = p.refCnt + 1 :=
      Nat.mod_eq_of_lt (Nat.succ_lt_succ (hlt hb))
    refine ⟨fun q hq => ?_, ?_, ?_⟩
    · simp only [Parse.packet, hb, Bool.false_eq_true, if_false, List.mem_append,
        List.mem_singleton] at hq
      exact hq.elim (h.holder q) .inr
    · simp only [Parse.packet, hb, Bool.false_eq_true, if_false, List.count_append,
        List.count_singleton_self]
      rw [hmod, h.refCnt_eq]
    · simp [Parse.packet, hb]

/-- The loop counts right as long as at most 255 packets hold the buffer. -/
theorem ParseOk.loop {its : List RxIter} {p p' : Parse} (h : ParseOk b p)
    (hle : p.refCnt + (parsed p.transferLen its).countP (fun it => !it.balloc) ≤ 255)
    (hp : parseLoop b p its = some p') : ParseOk b p' := by
  induction its generalizing p with
  | nil => cases hp
  | cons it its ih =>
    unfold parseLoop at hp
    unfold parsed at hle
    split at hp
    next hfound =>
      rw [if_pos hfound] at hle
      have hpos : 0 < p.transferLen - it.alignOffset ↔ 0 < (p.packet b it).transferLen := Iff.rfl
      have hcnt : (p.packet b it).refCnt ≤ p.refCnt + if it.balloc then 0 else 1 := by
        simp only [Parse.packet]
        split
        · omega
        · exact Nat.mod_le _ _
      -- the packets still to come leave room for this one
      have hpacket : ParseOk b (p.packet b it) := by
        refine h.packet fun hb => ?_
        split at hle <;> (rw [List.countP_cons] at hle; simp only [hb] at hle; simp at hle; omega)
      dsimp only at hp
      split at hp
      next hlen =>
        refine ih hpacket ?_ hp
        rw [if_pos (hpos.mpr hlen), List.countP_cons] at hle
        have htl : (p.packet b it).transferLen = p.transferLen - it.alignOffset := rfl
        rw [htl]
        cases hb : it.balloc <;> simp [hb] at hle hcnt <;> omega
      · obtain rfl := Option.some.inj hp
        exact hpacket
    · obtain rfl := Option.some.inj hp
      exact h

/-- The parsed packets take the buffer over. -/
theorem Inv.handOut (h : Inv n [b] s) {p : Parse} (hp : ParseOk b p) (hmem : some b ∈ p.pkts) :
    Inv n [] { s with
      pktcnt := Function.update s.pktcnt b p.refCnt
      pkts := s.pkts ++ p.pkts } := by
  have hnot := h.not_mem_pkts
  have hother (x : ℕ) (hx : x ≠ b) : some x ∉ p.pkts := fun hq =>
    (hp.holder _ hq).elim nofun fun heq => hx (Option.some.inj heq)
  refine ⟨fun x => ?_, h.idle_wf, h.busy_wf, h.pend_wf, fun x => ?_, h.urbs_eq⟩
  · have hx := h.places_eq x
    simp only [places, List.mem_append, List.count_nil, List.count_singleton] at hx ⊢
    by_cases heq : x = b
    · subst heq
      simpa [hnot, hmem] using hx
    · simpa [hother x heq, Ne.symm heq] using hx
  · simp only [List.count_append]
    by_cases heq : x = b
    · subst heq
      rw [Function.update_self, hp.refCnt_eq, List.count_eq_zero.mpr hnot, Nat.zero_add]
    · rw [Function.update_of_ne heq, h.pktcnt_eq x, List.count_eq_zero.mpr (hother x heq)]
      rfl

/-- Packets with buffers of their own hold nothing. -/
theorem Inv.append_copied (h : Inv n [] s) {pkts : List (Option ℕ)} (hp : ∀ q ∈ pkts, q = none) :
    Inv n [] { s with pkts := s.pkts ++ pkts } := by
  have hnot (x : ℕ) : some x ∉ pkts := fun hq => by cases hp _ hq
  refine ⟨fun x => ?_, h.idle_wf, h.busy_wf, h.pend_wf, fun x => ?_, h.urbs_eq⟩
  · simpa only [places, List.mem_append, hnot x, or_false] using h.places_eq x
  · rw [List.count_append, List.count_eq_zero.mpr (hnot x)]
    exact h.pktcnt_eq x

/-- A parsed buffer goes back to the idle queue or is held by its packets. -/
theorem Inv.rx (h : Inv n [] s) {its : List RxIter} (hok : InputOk s (.rx its))
    (hs : phlRxUsb s its = some s') : Inv n [] s' := by
  unfold phlRxUsb at hs
  split at hs
  · obtain rfl := Option.some.inj hs
    exact h
  next rxBuf pend hpop =>
    have hhand : Inv n [rxBuf] { s with pend } := by
      refine ⟨fun x => ?_, h.idle_wf, h.busy_wf, h.pend_wf.pop hpop, h.pktcnt_eq, h.urbs_eq⟩
      have hx := h.places_eq x
      simp only [places, count_pop hpop x, List.count_nil] at hx ⊢
      omega
    obtain ⟨⟨pkts, s₁⟩, hget, rfl⟩ := Option.map_eq_some_iff.mp hs
    obtain ⟨p, hloop, hp⟩ := Option.map_eq_some_iff.mp hget
    have hcount : (0 : ℕ) + (parsed (s.transferLen rxBuf) its).countP
      (fun it => !it.balloc) ≤ 255 := by
      rw [Nat.zero_add]
      exact hok rxBuf (by simp [(PhlQueue.pop_spec hpop).1])
    have hparse : ParseOk rxBuf p := (parseOk_init rxBuf _).loop hcount hloop
    split at hp
    · obtain ⟨rfl, rfl⟩ := Prod.mk.inj hp
      exact hhand.release
    next hne =>
      split at hp
      next hbrel =>
        obtain ⟨rfl, rfl⟩ := Prod.mk.inj hp
        dsimp only
        rw [if_neg hne]
        refine hhand.release.append_copied fun q hq => ?_
        exact (hparse.holder q hq).resolve_right fun heq => hparse.brel_eq.mp hbrel (heq ▸ hq)
      next hbrel =>
        obtain ⟨rfl, rfl⟩ := Prod.mk.inj hp
        dsimp only
        rw [if_neg hne]
        refine hhand.handOut hparse ?_
        by_contra hnot
        exact hbrel (hparse.brel_eq.mpr hnot)

/-- The buffer of a recycled packet goes back when no other packet holds it. -/
theorem Inv.recycle_eq (h : Inv n [] s) {phlRx : Option ℕ} (hmem : phlRx ∈ s.pkts) :
    phlRecycleRxBuf s phlRx = { s with
      pktcnt := fun x => (s.pkts.erase phlRx).count (some x)
      idle := { queue := s.idle.queue ++ phlRx.toList.filter fun _ => s.pkts.count phlRx = 1
                cnt := s.idle.cnt + (phlRx.toList.filter fun _ => s.pkts.count phlRx = 1).length }
      pkts := s.pkts.erase phlRx } := by
  cases phlRx with
  | none =>
    have hcnt : (fun x => s.pkts.count (some x)) = s.pktcnt := (funext h.pktcnt_eq).symm
    simp [phlRecycleRxBuf, hcnt]
  | some b =>
    have hpos : s.pkts.count (some b) ≠ 0 := (List.count_pos_iff.mpr hmem).ne'
    have hcnt : (fun x => (s.pkts.erase (some b)).count (some x)) =
        Function.update s.pktcnt b (s.pkts.count (some b) - 1) := by
      funext x
      by_cases heq : x = b
      · subst heq
        rw [Function.update_self, List.count_erase_self]
      · rw [Function.update_of_ne heq, h.pktcnt_eq, List.count_erase_of_ne]
        exact fun hsome => heq (Option.some.inj hsome)
    by_cases hlast : s.pkts.count (some b) = 1
    · simp [phlRecycleRxBuf, phlReleaseRxbufUsb, h.pktcnt_eq b, hcnt, hlast, pqPush]
    · have hmore : s.pkts.count (some b) - 1 ≠ 0 := by omega
      simp [phlRecycleRxBuf, phlReleaseRxbufUsb, h.pktcnt_eq b, hcnt, hlast, hpos, hmore]

/-- A recycled packet gives up its buffer. -/
theorem Inv.recycle (h : Inv n [] s) {phlRx : Option ℕ} (hmem : phlRx ∈ s.pkts) :
    Inv n [] (phlRecycleRxBuf s phlRx) := by
  rw [h.recycle_eq hmem]
  refine ⟨fun x => ?_, ?_, h.busy_wf, h.pend_wf, fun _ => rfl, h.urbs_eq⟩
  · have hx := h.places_eq x
    simp only [places, List.count_nil, List.count_append] at hx ⊢
    by_cases heq : phlRx = some x
    · subst heq
      have hiff : some x ∈ s.pkts.erase (some x) ↔ s.pkts.count (some x) ≠ 1 := by
        rw [← List.count_pos_iff, List.count_erase_self]
        have hpos := List.count_pos_iff.mpr hmem
        omega
      by_cases hlast : s.pkts.count (some x) = 1
      · simp [hiff, hlast, hmem] at hx ⊢
        omega
      · simpa [hiff, hlast, hmem] using hx
    · have hne : some x ∈ s.pkts.erase phlRx ↔ some x ∈ s.pkts :=
        List.mem_erase_of_ne (Ne.symm heq)
      have hzero : (phlRx.toList.filter fun _ => s.pkts.count phlRx = 1).count x = 0 := by
        rw [List.count_eq_zero]
        intro hx
        exact heq (Option.mem_toList.mp (List.mem_filter.mp hx).1)
      simpa [hne, hzero] using hx
  · have hwf := h.idle_wf
    simp only [PhlQueue.Wf, List.length_append] at hwf ⊢
    omega

theorem Inv.step (h : Inv n [] s) {e : Event} (hok : InputOk s e) (hs : step s e = some s') :
    Inv n [] s' := by
  cases e with
  | inToken tok =>
    obtain rfl := Option.some.inj hs
    exact h.inToken hok
  | complete rxBuf inbufLen success tok =>
    obtain ⟨hmem, hs⟩ := Option.ite_none_right_eq_some.mp hs
    obtain rfl := Option.some.inj hs
    exact h.complete hmem hok
  | rx its => exact h.rx hok hs
  | recycle phlRx =>
    obtain ⟨hmem, hs⟩ := Option.ite_none_right_eq_some.mp hs
    obtain rfl := Option.some.inj hs
    exact h.recycle hmem

theorem run_inv {es : List Event} (hok : Guarded RxBuf.step InputOk (init n) es)
    (h : run RxBuf.step (init n) es = some s) : Inv n [] s :=
  run_preserves (Inv n []) (fun _ _ _ hinv hoke hs => hinv.step hoke hs) (inv_init n) hok h

/-- The buffers in the four places are all the buffers. -/
theorem Inv.perm (h : Inv n [] s) :
    (s.idle.queue ++ s.busy.queue ++ s.pend.queue ++ held n s).Perm (List.range n) := by
  rw [List.perm_iff_count]
  intro x
  have hx := h.places_eq x
  have hnodup : (held n s).Nodup := List.nodup_range.filter _
  have hheld : (held n s).count x = if x < n ∧ some x ∈ s.pkts then 1 else 0 := by
    rw [hnodup.count]
    simp [held]
  simp only [places, List.count_nil] at hx
  simp only [List.count_append, hheld, List.nodup_range.count, List.mem_range]
  by_cases hlt : x < n <;> simp [hlt] at hx ⊢ <;> omega

end Rtl88x2cu.Trx.RxBuf
