import Rtl88x2cu.Lib.Run
import Rtl88x2cu.RxReorder.Window

/-!
# RX reordering: runs of one block-ack session

A session lives through MPDUs, block-ack requests and expiries of the reorder timer, in any
order. Two properties of every run, both for buffer sizes that divide 4096 and are at most
1024:

* `run_consistent`: the counter, the slots and the window of the stored packets agree, as long
  as no block-ack request jumps exactly half the sequence space over stored packets;
* `run_released_sorted`: what the session releases once it has started leaves in strictly
  increasing order of the unrolled sequence numbers.

The buffer size comes from the peer and the code does not restrict it. With another size the
slot of a sequence number is not continuous where the numbers wrap from 4095 to 0, and
`released_out_of_order` shows the effect.
-/

namespace Rtl88x2cu.RxReorder

variable {π : Type}

/-- What can happen to a session. -/
inductive SessionEvent (π : Type) where
  /-- `phl_rx_reorder` finds the session for `pkt`. -/
  | mpdu (pkt : π) (now now' : ℕ)
  /-- `rtw_phl_rx_bar` with the start sequence number `seq`. -/
  | bar (seq : ℕ)
  /-- `phl_sta_rx_reorder_timer_expired` comes to the session. -/
  | timerExpired (curTime : ℕ)

/-- One event of the session. A packet that `phl_manage_sta_reorder_buf` does not keep is
delivered behind the packets it released. -/
def sessionStep (seq : π → ℕ) (c : RxCtx π) : SessionEvent π → Option (RxCtx π)
  | .mpdu pkt now now' => do
    let (c', kept) ← phlManageStaReorderBuf seq c pkt now now'
    some (if kept then c' else dontReorder c' pkt)
  | .bar start => rxBar c start
  | .timerExpired curTime => phlReorderRelease c curTime

/-- A session as `rtw_phl_start_rx_ba_session` sets it up. -/
def newSession (π : Type) (ssn tid bufSize : ℕ) : RxCtx π where
  r := phlTidAmpduRxAlloc π ssn tid bufSize
  frames := []
  recycled := []
  timer := false

/-- A fresh session is a window at its starting sequence number. -/
theorem newSession_window (u : π → ℕ) (ssn tid : ℕ) {bufSize : ℕ} (hpos : 0 < bufSize)
    (hdvd : bufSize ∣ 0x1000) (hle : bufSize ≤ 0x400) :
    Window u ssn (newSession π ssn tid bufSize).r := by
  refine ⟨phlTidAmpduRxAlloc_wf hpos (by omega), hdvd, hle, rfl, fun i p hp => ?_⟩
  have hnone : slot (List.replicate bufSize (none : Option π)) i = some p := hp
  rw [slot_replicate_none] at hnone
  cases hnone

/-- The packets an event brings in. -/
def SessionEvent.packets : SessionEvent π → Multiset π
  | .mpdu pkt _ _ => {pkt}
  | .bar _ => 0
  | .timerExpired _ => 0

/-- Every event is handled, and accounts exactly for the packets stored before and the packet it
brings in. -/
theorem sessionStep_owned (seq : π → ℕ) {c : RxCtx π} (h : c.r.Wf) (e : SessionEvent π) :
    ∃ c', sessionStep seq c e = some c' ∧ c'.r.Wf ∧ c'.owned = c.owned + e.packets := by
  cases e with
  | mpdu pkt now now' =>
    obtain ⟨c', kept, hc', hacc⟩ := phlManageStaReorderBuf_accepts seq h pkt now now'
    refine ⟨if kept then c' else dontReorder c' pkt, ?_, ?_, ?_⟩
    · simp only [sessionStep, hc', Option.bind_eq_bind, Option.bind_some]
    · cases kept <;> exact hacc.wf
    · rw [SessionEvent.packets, ← hacc.owned]
      cases kept with
      | true => simp
      | false => simpa using owned_dontReorder c' pkt
  | bar start =>
    obtain ⟨c', hc', hcons⟩ := rxBar_conserves h start
    exact ⟨c', hc', hcons.wf, by simpa [SessionEvent.packets] using hcons.owned⟩
  | timerExpired curTime =>
    obtain ⟨c', hc', hcons⟩ := phlReorderRelease_conserves h curTime
    exact ⟨c', hc', hcons.wf, by simpa [SessionEvent.packets] using hcons.owned⟩

/-! ## The window invariant -/

/-- The counter counts the stored packets, and each of them sits in the slot of its sequence
number and lies in the window, hence does not precede the head. -/
structure Consistent (seq : π → ℕ) (r : TidAmpduRx π) : Prop where
  stored : r.storedMpduNum = (held r.reorderBuf).length
  slots : ∀ i p, slot r.reorderBuf i = some p → i = reorderIndex r (seq p)
  window : ∀ p ∈ held r.reorderBuf, seqSub (seq p) r.headSeqNum < r.bufSize
  not_less : ∀ p ∈ held r.reorderBuf, seqLess (seq p) r.headSeqNum = false

/-- A block-ack request that starts exactly 2048 ahead of the head finds the buffer empty. -/
def BarAllowed (c : RxCtx π) : SessionEvent π → Prop
  | .bar start => seqSub start c.r.headSeqNum ≠ 0x800 ∨ c.r.storedMpduNum = 0
  | _ => True

instance (c : RxCtx π) (e : SessionEvent π) : Decidable (BarAllowed c e) :=
  match e with
  | .bar start =>
    inferInstanceAs (Decidable (seqSub start c.r.headSeqNum ≠ 0x800 ∨ c.r.storedMpduNum = 0))
  | .mpdu _ _ _ => isTrue trivial
  | .timerExpired _ => isTrue trivial

/-- A consistent session is a window of the numbers unrolled from its head. -/
theorem Consistent.toWindow {seq : π → ℕ} {r : TidAmpduRx π} (h : Consistent seq r) (hwf : r.Wf)
    (hdvd : r.bufSize ∣ 0x1000) (hle : r.bufSize ≤ 0x400) :
    Window (fun p => r.headSeqNum + seqSub (seq p) r.headSeqNum) r.headSeqNum r := by
  refine ⟨hwf, hdvd, hle, rfl, fun i p hp => ⟨by omega, ?_, ?_⟩⟩
  · have hlt := h.window p (mem_held_iff.mpr ⟨i, hp⟩)
    omega
  · rw [h.slots i p hp]
    apply reorderIndex_congr
    unfold seqSub
    omega

/-- A window of unrolled numbers is consistent. -/
theorem Window.toConsistent {seq u : π → ℕ} {H : ℕ} {r : TidAmpduRx π} (h : Window u H r)
    (hseq : ∀ p, seq p % 0x1000 = u p % 0x1000) : Consistent seq r := by
  have hdist : ∀ p ∈ held r.reorderBuf, seqSub (seq p) r.headSeqNum < r.bufSize := by
    intro p hp
    obtain ⟨i, hi⟩ := mem_held_iff.mp hp
    obtain ⟨hlo, hhi, -⟩ := h.stored i p hi
    have hle := h.le
    rw [seqSub_eq (hseq p) h.head hlo (by omega)]
    omega
  refine ⟨h.wf.stored, fun i p hp => ?_, hdist, fun p hp => ?_⟩
  · obtain ⟨-, -, hi⟩ := h.stored i p hp
    rw [hi]
    exact reorderIndex_congr r (hseq p).symm
  · have hlt := hdist p hp
    have hle := h.le
    rw [seqLess, decide_eq_false_iff_not]
    omega

/-- What holds between the events of a run: a consistent session of the size it was made with,
whose buffer is empty if it has a single slot. -/
structure SessionInv (seq : π → ℕ) (bufSize : ℕ) (c : RxCtx π) : Prop where
  wf : c.r.Wf
  consistent : Consistent seq c.r
  bufSize : c.r.bufSize = bufSize
  single : c.r.bufSize = 1 → c.r.storedMpduNum = 0

/-- With nothing stored, moving the window is only a change of the head. -/
theorem phlReleaseReorderFrames_of_empty {c : RxCtx π} (h : c.r.storedMpduNum = 0) (head : ℕ) :
    phlReleaseReorderFrames c head = some (c.setHead head) := by
  simp [phlReleaseReorderFrames, h]

/-- An MPDU leaves a buffer of one slot empty. -/
theorem manageStarted_single (seq : π → ℕ) {c c' : RxCtx π} (h : c.r.Wf) {pkt : π}
    {now now' : ℕ} {kept : Bool} (hB : c.r.bufSize = 1) (hst : c.r.storedMpduNum = 0)
    (hc : manageStarted seq c pkt now now' = some (c', kept)) : c'.r.storedMpduNum = 0 := by
  unfold manageStarted at hc
  simp only at hc
  split at hc
  next =>
    obtain ⟨rfl, -⟩ := Prod.mk.inj (Option.some.inj hc)
    exact hst
  next =>
    obtain ⟨c₁, hc₁, hc⟩ := Option.bind_eq_some_iff.mp hc
    have hst₁ : c₁.r.storedMpduNum = 0 := by
      unfold makeRoom at hc₁
      split at hc₁
      next => exact Option.some.inj hc₁ ▸ hst
      next =>
        rw [phlReleaseReorderFrames_of_empty hst] at hc₁
        exact Option.some.inj hc₁ ▸ hst
    obtain ⟨c₁', hc₁', hcons⟩ := makeRoom_conserves h (seq pkt)
    obtain rfl : c₁' = c₁ := Option.some.inj (hc₁' ▸ hc₁)
    split at hc
    next =>
      obtain ⟨rfl, -⟩ := Prod.mk.inj (Option.some.inj hc)
      exact hst₁
    next hfree =>
      split at hc
      next =>
        obtain ⟨rfl, -⟩ := Prod.mk.inj (Option.some.inj hc)
        exact hst₁
      next =>
        obtain ⟨c₂, hc₂, hc⟩ := Option.bind_eq_some_iff.mp hc
        obtain ⟨rfl, -⟩ := Prod.mk.inj (Option.some.inj hc)
        have hwf := (storeMpdu_wf hcons.wf pkt now
          (reorderIndex_lt hcons.wf.bufSize_pos (seq pkt)) (by simpa using hfree)).1
        exact phlReorderRelease_empty hwf (hcons.bufSize.trans hB) hc₂

/-- The same for the whole of `phl_manage_sta_reorder_buf`. -/
theorem phlManageStaReorderBuf_single (seq : π → ℕ) {c c' : RxCtx π} (h : c.r.Wf) {pkt : π}
    {now now' : ℕ} {kept : Bool} (hB : c.r.bufSize = 1) (hst : c.r.storedMpduNum = 0)
    (hc : phlManageStaReorderBuf seq c pkt now now' = some (c', kept)) :
    c'.r.storedMpduNum = 0 := by
  unfold phlManageStaReorderBuf at hc
  split at hc
  next => exact manageStarted_single seq h hB hst hc
  next =>
    split at hc
    next =>
      obtain ⟨rfl, -⟩ := Prod.mk.inj (Option.some.inj hc)
      exact hst
    next =>
      have hwf : ({ c.r with started := true } : TidAmpduRx π).Wf :=
        ⟨h.bufSize_pos, h.bufSize_lt, h.length_buf, h.stored⟩
      exact manageStarted_single seq (c := { c with r := _ }) hwf hB hst hc

/-- Every allowed event is handled and keeps the session consistent. -/
theorem sessionStep_inv (seq : π → ℕ) {bufSize : ℕ} (hdvd : bufSize ∣ 0x1000)
    (hle : bufSize ≤ 0x400) (c : RxCtx π) (e : SessionEvent π) (h : SessionInv seq bufSize c)
    (hok : BarAllowed c e) :
    ∃ c', sessionStep seq c e = some c' ∧ SessionInv seq bufSize c' := by
  obtain ⟨hwf, hcon, rfl, hsingle⟩ := h
  have hw := hcon.toWindow hwf hdvd hle
  -- a window of the numbers unrolled from the old head is consistent whatever the new head is
  have hback : ∀ {H' : ℕ} {r' : TidAmpduRx π},
      Window (fun p => c.r.headSeqNum + seqSub (seq p) c.r.headSeqNum) H' r' →
        Consistent seq r' := by
    intro H' r' hw'
    refine hw'.toConsistent fun p => ?_
    unfold seqSub
    omega
  cases e with
  | mpdu pkt now now' =>
    obtain ⟨c', kept, hc', hacc⟩ := phlManageStaReorderBuf_accepts seq hwf pkt now now'
    have hone : c'.r.bufSize = 1 → c'.r.storedMpduNum = 0 := fun h1 =>
      have hB1 : c.r.bufSize = 1 := hacc.bufSize ▸ h1
      phlManageStaReorderBuf_single seq hwf hB1 (hsingle hB1) hc'
    have hr : (if kept then c' else dontReorder c' pkt).r = c'.r := by
      cases kept <;> rfl
    have hcon' : Consistent seq c'.r := by
      rcases phlManageStaReorderBuf_moves seq hw (fun _ => rfl) (Or.inr hsingle) hc' with
        ⟨rfl, -⟩ | ⟨H', hmoves, -⟩
      · exact hcon
      · exact hr ▸ hback hmoves.window
    refine ⟨if kept then c' else dontReorder c' pkt, ?_, ?_⟩
    · simp only [sessionStep, hc', Option.bind_eq_bind, Option.bind_some]
    · exact ⟨hr ▸ hacc.wf, hr ▸ hcon', hr ▸ hacc.bufSize, hr ▸ hone⟩
  | bar start =>
    obtain ⟨c', hc', hcons⟩ := rxBar_conserves hwf start
    obtain ⟨H', hmoves, -⟩ := rxBar_moves hw hok hc'
    refine ⟨c', hc', hcons.wf, hback hmoves.window, hcons.bufSize, fun h1 => ?_⟩
    have hst := hsingle (hcons.bufSize ▸ h1)
    simp only [rxBar, phlReleaseReorderFrames_of_empty hst] at hc'
    split at hc' <;> exact Option.some.inj hc' ▸ hst
  | timerExpired curTime =>
    obtain ⟨c', hc', hcons⟩ := phlReorderRelease_conserves hwf curTime
    obtain ⟨H', hmoves, -⟩ := phlReorderRelease_moves hw hc'
    refine ⟨c', hc', hcons.wf, hback hmoves.window, hcons.bufSize, fun h1 => ?_⟩
    exact phlReorderRelease_empty hwf (hcons.bufSize ▸ h1) hc'

/-- Every run of a session returns and ends in a consistent state, if the buffer size divides
4096, is at most 1024, and no block-ack request jumps exactly 2048 ahead over stored packets. -/
theorem run_consistent (seq : π → ℕ) (ssn tid : ℕ) {bufSize : ℕ} (hpos : 0 < bufSize)
    (hdvd : bufSize ∣ 0x1000) (hle : bufSize ≤ 0x400) (es : List (SessionEvent π))
    (hes : Guarded (sessionStep seq) BarAllowed (newSession π ssn tid bufSize) es) :
    ∃ c, run (sessionStep seq) (newSession π ssn tid bufSize) es = some c ∧
      Consistent seq c.r := by
  have hinit : SessionInv seq bufSize (newSession π ssn tid bufSize) := by
    have hw := newSession_window seq ssn tid hpos hdvd hle
    exact ⟨hw.wf, hw.toConsistent fun p => rfl, rfl, fun _ => rfl⟩
  obtain ⟨c, hc, hinv⟩ := run_invariant (SessionInv seq bufSize)
    (fun c e h hok => sessionStep_inv seq hdvd hle c e h hok) es _ hinit hes
  exact ⟨c, hc, hinv.consistent⟩

/-- A session of eight slots across the wrap of the sequence numbers, with a block-ack request
over the empty buffer exactly 2048 ahead. -/
theorem run_consistent_wrap :
    ∃ c, run (sessionStep (id : ℕ → ℕ)) (newSession ℕ 4094 0 8)
        [.mpdu 0 5 5, .mpdu 4094 6 6, .bar 1, .bar 2049, .mpdu 2050 9 9] = some c ∧
      Consistent id c.r :=
  run_consistent id 4094 0 (by decide) (by decide) (by decide) _ (by decide)

/-- A block-ack request exactly 2048 ahead of the head leaves a stored packet behind, out of the
window: `seq_less` holds in neither direction, so nothing is released. -/
theorem bar_half_space_inconsistent :
    ∃ c, run (sessionStep (id : ℕ → ℕ)) (newSession ℕ 0 0 8) [.mpdu 1 5 5, .bar 2048] = some c ∧
      held c.r.reorderBuf = [1] ∧ ¬ Consistent id c.r := by
  refine ⟨_, rfl, by decide, fun h => ?_⟩
  exact absurd (h.window 1 (by decide)) (by decide)

/-! ## The order of release -/

/-- A session whose packets carry their unrolled sequence numbers, which the code cannot see.
`head` is the unrolled position of the head and `released` collects what the session has
released since it started. -/
structure Unrolled (π : Type) where
  ctx : RxCtx (π × ℕ)
  head : ℕ
  released : List (π × ℕ)

/-- The unrolled number of a sequence number is counted from the head. -/
def Unrolled.number (s : Unrolled π) (sq : ℕ) : ℕ := s.head + seqSub sq s.ctx.r.headSeqNum

/-- Give the packet of an event its unrolled number. -/
def Unrolled.tag (seq : π → ℕ) (s : Unrolled π) : SessionEvent π → SessionEvent (π × ℕ)
  | .mpdu pkt now now' => .mpdu (pkt, s.number (seq pkt)) now now'
  | .bar start => .bar start
  | .timerExpired curTime => .timerExpired curTime

/-- One event, on a fresh `frames` list. The head moves forward by the distance of the new head
from the old one. -/
def unrolledStep (seq : π → ℕ) (s : Unrolled π) (e : SessionEvent π) : Option (Unrolled π) := do
  let c ← sessionStep (seq ∘ Prod.fst) { s.ctx with frames := [] } (s.tag seq e)
  some {
    ctx := c
    head := s.number c.r.headSeqNum
    released := if c.r.started then s.released ++ c.frames else s.released }

/-- A fresh session is unrolled at its starting sequence number. -/
def newUnrolled (π : Type) (ssn tid bufSize : ℕ) : Unrolled π where
  ctx := newSession (π × ℕ) ssn tid bufSize
  head := ssn
  released := []

/-- The sequence number of an event is not exactly 2048 ahead of the head: it is less than 2048
ahead, or behind. -/
def Admissible (seq : π → ℕ) (s : Unrolled π) : SessionEvent π → Prop
  | .mpdu pkt _ _ => seqSub (seq pkt) s.ctx.r.headSeqNum ≠ 0x800
  | .bar start => seqSub start s.ctx.r.headSeqNum ≠ 0x800
  | .timerExpired _ => True

instance (seq : π → ℕ) (s : Unrolled π) (e : SessionEvent π) : Decidable (Admissible seq s e) :=
  match e with
  | .mpdu pkt _ _ => inferInstanceAs (Decidable (seqSub (seq pkt) s.ctx.r.headSeqNum ≠ 0x800))
  | .bar start => inferInstanceAs (Decidable (seqSub start s.ctx.r.headSeqNum ≠ 0x800))
  | .timerExpired _ => isTrue trivial

/-- The number of a tagged packet has the residue of its sequence number. -/
def Tagged (seq : π → ℕ) (p : π × ℕ) : Prop := p.2 % 0x1000 = seq p.1 % 0x1000

/-- What holds between the events of an unrolled run: the stored packets form a window at the
unrolled head, and what was released lies in order behind it. -/
structure UnrolledInv (seq : π → ℕ) (s : Unrolled π) : Prop where
  window : Window Prod.snd s.head s.ctx.r
  emits : Emits Prod.snd 0 s.head s.released
  owned : ∀ p ∈ s.ctx.owned, Tagged seq p
  released : ∀ p ∈ s.released, Tagged seq p

/-- Numbers counted from the head have the right residue. -/
theorem UnrolledInv.number_mod {seq : π → ℕ} {s : Unrolled π} (h : UnrolledInv seq s) (sq : ℕ) :
    s.number sq % 0x1000 = sq % 0x1000 := by
  have hhead := h.window.head
  unfold Unrolled.number seqSub
  omega

/-- One event of an unrolled session: the code returns, and either the window moves forward or
the session has not started. -/
theorem sessionStep_tag {seq : π → ℕ} {s : Unrolled π} {e : SessionEvent π}
    (h : UnrolledInv seq s) (hok : Admissible seq s e) :
    ∃ c, sessionStep (seq ∘ Prod.fst) { s.ctx with frames := [] } (s.tag seq e) = some c ∧
      (∀ p ∈ c.owned, Tagged seq p) ∧
      ((c.r = s.ctx.r ∧ c.r.started = false) ∨
        ∃ H', Moves Prod.snd { s.ctx with frames := [] } s.head c H' ∧ H' < s.head + 0x1000) := by
  set c₀ : RxCtx (π × ℕ) := { s.ctx with frames := [] } with hc₀
  have hw₀ : Window Prod.snd s.head c₀.r := h.window
  obtain ⟨c, hc, -, howned⟩ := sessionStep_owned (seq ∘ Prod.fst) hw₀.wf (s.tag seq e)
  refine ⟨c, hc, fun p hp => ?_, ?_⟩
  · rw [howned] at hp
    rcases Multiset.mem_add.mp hp with hp | hp
    · refine h.owned p ?_
      simp only [RxCtx.owned, hc₀, Multiset.mem_add, Multiset.mem_coe] at hp ⊢
      simp only [List.not_mem_nil, false_or] at hp
      tauto
    · cases e with
      | mpdu pkt now now' =>
        obtain rfl : p = (pkt, s.number (seq pkt)) := by
          simpa [Unrolled.tag, SessionEvent.packets] using hp
        exact h.number_mod (seq pkt)
      | bar start => simp [Unrolled.tag, SessionEvent.packets] at hp
      | timerExpired curTime => simp [Unrolled.tag, SessionEvent.packets] at hp
  · cases e with
    | mpdu pkt now now' =>
      obtain ⟨⟨c', kept⟩, hc', hc⟩ := Option.bind_eq_some_iff.mp hc
      obtain rfl := Option.some.inj hc
      have hfar : seqSub ((seq ∘ Prod.fst) (pkt, s.number (seq pkt))) c₀.r.headSeqNum ≠ 0x800 := hok
      rcases phlManageStaReorderBuf_moves (seq ∘ Prod.fst) hw₀ (fun _ => rfl) (Or.inl hfar) hc'
        with ⟨rfl, hns⟩ | hmoves
      · left
        cases kept <;> exact ⟨rfl, hns⟩
      · exact Or.inr hmoves
    | bar start => exact Or.inr (rxBar_moves hw₀ (Or.inl hok) hc)
    | timerExpired curTime =>
      obtain ⟨H', hmoves, hle⟩ := phlReorderRelease_moves hw₀ hc
      have hB : c₀.r.bufSize ≤ 0x400 := hw₀.le
      exact Or.inr ⟨H', hmoves, by omega⟩

/-- Every admissible event is handled and keeps the invariant. -/
theorem unrolledStep_inv (seq : π → ℕ) (s : Unrolled π) (e : SessionEvent π)
    (h : UnrolledInv seq s) (hok : Admissible seq s e) :
    ∃ s', unrolledStep seq s e = some s' ∧ UnrolledInv seq s' := by
  obtain ⟨c, hc, howned, hcase⟩ := sessionStep_tag h hok
  refine ⟨_, by simp only [unrolledStep, hc, Option.bind_eq_bind, Option.bind_some]; rfl, ?_⟩
  rcases hcase with ⟨hr, hns⟩ | ⟨H', hmoves, hlt⟩
  · -- the session has not started: nothing moves, and nothing counts as released
    have hnum : s.number c.r.headSeqNum = s.head := by
      rw [Unrolled.number, hr, seqSub_eq rfl rfl le_rfl (by omega), Nat.sub_self, Nat.add_zero]
    refine ⟨?_, ?_, howned, ?_⟩
    · simp only [hnum]
      exact hr ▸ h.window
    · simp only [hnum, hns, Bool.false_eq_true, if_false]
      exact h.emits
    · simp only [hns, Bool.false_eq_true, if_false]
      exact h.released
  · have hnum : s.number c.r.headSeqNum = H' := by
      have hle := hmoves.le
      rw [Unrolled.number, seqSub_eq hmoves.window.head h.window.head hle hlt]
      omega
    obtain ⟨fs, hfs, hemits⟩ := hmoves.emits
    have hfs' : c.frames = fs := by simpa using hfs
    refine ⟨?_, ?_, howned, ?_⟩
    · simp only [hnum]
      exact hmoves.window
    · have hall := h.emits.append hemits (Nat.zero_le _) hmoves.le
      simp only [hnum, hfs']
      split
      · exact hall
      · exact ⟨h.emits.sorted, fun p hp =>
          ⟨Nat.zero_le _, (h.emits.bounds p hp).2.trans_le hmoves.le⟩⟩
    · simp only
      split
      · intro p hp
        rcases List.mem_append.mp hp with hp | hp
        · exact h.released p hp
        · refine howned p ?_
          simp only [RxCtx.owned, Multiset.mem_add, Multiset.mem_coe]
          exact Or.inl (Or.inl hp)
      · exact h.released

/-- Whatever admissible events a session sees, it returns from each of them, and the packets it
releases once it has started have strictly increasing unrolled sequence numbers. -/
theorem run_released_sorted (seq : π → ℕ) (ssn tid : ℕ) {bufSize : ℕ} (hpos : 0 < bufSize)
    (hdvd : bufSize ∣ 0x1000) (hle : bufSize ≤ 0x400) (es : List (SessionEvent π))
    (hes : Guarded (unrolledStep seq) (Admissible seq) (newUnrolled π ssn tid bufSize) es) :
    ∃ s, run (unrolledStep seq) (newUnrolled π ssn tid bufSize) es = some s ∧
      s.released.Pairwise (fun p q => p.2 < q.2) ∧ ∀ p ∈ s.released, Tagged seq p := by
  have hinit : UnrolledInv seq (newUnrolled π ssn tid bufSize) := by
    refine ⟨newSession_window _ ssn tid hpos hdvd hle, Emits.nil _ _ _, fun p hp => ?_,
      fun p hp => by simp [newUnrolled] at hp⟩
    simp [RxCtx.owned, newUnrolled, newSession, phlTidAmpduRxAlloc] at hp
  obtain ⟨s, hs, hinv⟩ := run_invariant (UnrolledInv seq) (unrolledStep_inv seq) es _ hinit hes
  exact ⟨s, hs, hinv.emits.sorted, hinv.released⟩

/-- The order survives the wrap from 4095 to 0. -/
theorem run_released_sorted_wrap :
    ∃ s, run (unrolledStep (id : ℕ → ℕ)) (newUnrolled ℕ 4094 0 8)
        [.mpdu 0 5 5, .mpdu 4095 5 5, .mpdu 4094 6 6, .mpdu 3 7 7, .timerExpired 300] = some s ∧
      s.released.Pairwise (fun p q => p.2 < q.2) ∧ ∀ p ∈ s.released, Tagged id p :=
  run_released_sorted id 4094 0 (by decide) (by decide) (by decide) _ (by decide)

/-- With six slots, which do not divide 4096, the packets 1 and 4094 share a window with the head
4093, but the slot of 1 is the slot of 4093: packet 1 is released at once, and 4094 after it. -/
theorem released_out_of_order :
    Guarded (unrolledStep (id : ℕ → ℕ)) (Admissible id) (newUnrolled ℕ 0 0 6)
        [.bar 2047, .bar 4093, .mpdu 1 5 5, .mpdu 4094 6 6] ∧
      ∃ s, run (unrolledStep (id : ℕ → ℕ)) (newUnrolled ℕ 0 0 6)
          [.bar 2047, .bar 4093, .mpdu 1 5 5, .mpdu 4094 6 6] = some s ∧
        s.released = [(1, 4097), (4094, 4094)] ∧
        ¬ s.released.Pairwise (fun p q => p.2 < q.2) :=
  ⟨by decide, _, rfl, by decide, by decide⟩

end Rtl88x2cu.RxReorder
