import Mathlib.Algebra.Order.Group.Multiset
import Mathlib.Algebra.Order.Ring.Nat
import Mathlib.Tactic.Abel
import Rtl88x2cu.Lib.CyclicIndex
import Rtl88x2cu.RxReorder.Model

/-!
# RX reordering: termination and conservation of packets

Whatever the buffer size and the sequence numbers, every function of the reordering code
returns, keeps the session well formed (`TidAmpduRx.Wf`: the counter `stored_mpdu_num` is the
number of packets in the buffer) and moves packets without losing or duplicating one.

* `RxCtx.owned` is the multiset of the packets delivered, recycled or stored.
* `Conserves c c'` says that `c'` is well formed and owns the same packets as `c`.
* `phlReorderRelease_conserves`, `phlReleaseReorderFrames_conserves`,
  `phlManageStaReorderBuf_conserves` and `rxBar_conserves` are the specifications of the entry
  points at this level.
-/

namespace Rtl88x2cu.RxReorder

variable {π : Type}

/-- A session whose buffer has `buf_size` slots and whose counter counts the packets in it. -/
structure TidAmpduRx.Wf (r : TidAmpduRx π) : Prop where
  bufSize_pos : 0 < r.bufSize
  bufSize_lt : r.bufSize < 0x10000
  length_buf : r.reorderBuf.length = r.bufSize
  stored : r.storedMpduNum = (held r.reorderBuf).length

/-- The packets a context accounts for: delivered, recycled or stored. -/
def RxCtx.owned (c : RxCtx π) : Multiset π :=
  (c.frames : Multiset π) + c.recycled + held c.r.reorderBuf

/-- `c'` is well formed, owns the packets `c` owns and belongs to the same session. -/
structure Conserves (c c' : RxCtx π) : Prop where
  wf : c'.r.Wf
  owned : c'.owned = c.owned
  ssn : c'.r.ssn = c.r.ssn
  bufSize : c'.r.bufSize = c.r.bufSize
  started : c'.r.started = c.r.started

theorem Conserves.refl {c : RxCtx π} (h : c.r.Wf) : Conserves c c := ⟨h, rfl, rfl, rfl, rfl⟩

theorem Conserves.trans {c₁ c₂ c₃ : RxCtx π} (h₁ : Conserves c₁ c₂) (h₂ : Conserves c₂ c₃) :
    Conserves c₁ c₃ :=
  ⟨h₂.wf, h₂.owned.trans h₁.owned, h₂.ssn.trans h₁.ssn, h₂.bufSize.trans h₁.bufSize,
    h₂.started.trans h₁.started⟩

/-- A fresh session is well formed. -/
theorem phlTidAmpduRxAlloc_wf {ssn tid bufSize : ℕ} (hpos : 0 < bufSize)
    (hlt : bufSize < 0x10000) : (phlTidAmpduRxAlloc π ssn tid bufSize).Wf :=
  ⟨hpos, hlt, List.length_replicate, by simp [phlTidAmpduRxAlloc]⟩

/-- Slot indices lie in the buffer. -/
theorem reorderIndex_lt {r : TidAmpduRx π} (h : 0 < r.bufSize) (seq : ℕ) :
    reorderIndex r seq < r.bufSize :=
  Nat.mod_lt _ h

/-! ## Single updates -/

@[simp]
theorem buf_setHead (c : RxCtx π) (head i : ℕ) : (c.setHead head).buf i = c.buf i := rfl

theorem setHead_conserves {c : RxCtx π} (h : c.r.Wf) (head : ℕ) :
    Conserves c (c.setHead head) :=
  ⟨⟨h.bufSize_pos, h.bufSize_lt, h.length_buf, h.stored⟩, rfl, rfl, rfl, rfl⟩

/-- Arming or cancelling the timer moves no packet. -/
theorem setTimer_conserves {c : RxCtx π} (h : c.r.Wf) (timer : Bool) :
    Conserves c { c with timer := timer } :=
  ⟨⟨h.bufSize_pos, h.bufSize_lt, h.length_buf, h.stored⟩, rfl, rfl, rfl, rfl⟩

theorem setReleaseTimer_conserves {c : RxCtx π} (h : c.r.Wf) :
    Conserves c (setReleaseTimer c) := by
  unfold setReleaseTimer
  split
  · exact Conserves.refl h
  · exact setTimer_conserves h true

@[simp]
theorem setReleaseTimer_r (c : RxCtx π) : (setReleaseTimer c).r = c.r := by
  unfold setReleaseTimer
  split <;> rfl

@[simp]
theorem setReleaseTimer_frames (c : RxCtx π) : (setReleaseTimer c).frames = c.frames := by
  unfold setReleaseTimer
  split <;> rfl

/-- Releasing slot `index` empties it and leaves the other slots alone. -/
theorem buf_phlReleaseReorderFrame (c : RxCtx π) (index i : ℕ) :
    (phlReleaseReorderFrame c index).buf i = if i = index then none else c.buf i := by
  unfold phlReleaseReorderFrame
  cases hb : c.buf index with
  | none =>
    rw [buf_setHead]
    split
    next heq => rw [heq, hb]
    next => rfl
  | some pkt =>
    simp only [RxCtx.buf]
    split
    next heq => rw [heq, slot_set_none_self]
    next hne => exact slot_set_ne none (Ne.symm hne)

/-- Releasing a slot advances the head by one, whether the slot is empty or not. -/
@[simp]
theorem headSeqNum_phlReleaseReorderFrame (c : RxCtx π) (index : ℕ) :
    (phlReleaseReorderFrame c index).r.headSeqNum = seqInc c.r.headSeqNum := by
  unfold phlReleaseReorderFrame
  cases c.buf index <;> rfl

/-- Releasing a slot hands over the packet in it. -/
theorem frames_phlReleaseReorderFrame (c : RxCtx π) (index : ℕ) :
    (phlReleaseReorderFrame c index).frames = c.frames ++ (c.buf index).toList := by
  unfold phlReleaseReorderFrame
  cases c.buf index <;> simp [RxCtx.setHead]

theorem phlReleaseReorderFrame_conserves {c : RxCtx π} (h : c.r.Wf) (index : ℕ) :
    Conserves c (phlReleaseReorderFrame c index) := by
  unfold phlReleaseReorderFrame
  cases hb : c.buf index with
  | none => exact setHead_conserves h _
  | some pkt =>
    have hlen := length_held_set_none hb
    have hheld := held_set_none hb
    have hle := length_held_le c.r.reorderBuf
    refine ⟨⟨h.bufSize_pos, h.bufSize_lt, by simp [h.length_buf], ?_⟩, ?_, rfl, rfl, rfl⟩
    · -- the decrement does not wrap: the slot was full
      have hst := h.stored
      have hlt := h.bufSize_lt
      have hlb := h.length_buf
      simp only
      omega
    · simp only [RxCtx.owned, hheld, ← Multiset.coe_add, ← Multiset.coe_singleton,
        ← Multiset.singleton_add]
      abel

/-- A release from a full slot lowers the counter. -/
theorem length_held_phlReleaseReorderFrame {c : RxCtx π} {index : ℕ}
    (hb : (c.buf index).isSome) :
    (held (phlReleaseReorderFrame c index).r.reorderBuf).length + 1 =
      (held c.r.reorderBuf).length := by
  obtain ⟨pkt, hpkt⟩ := Option.isSome_iff_exists.mp hb
  unfold phlReleaseReorderFrame
  rw [hpkt]
  exact (length_held_set_none hpkt).symm

/-- Storing a packet in an empty slot adds it to the packets owned. -/
theorem storeMpdu_wf {c : RxCtx π} (h : c.r.Wf) (pkt : π) {index : ℕ} (now : ℕ)
    (hi : index < c.r.bufSize) (hb : c.buf index = none) :
    (storeMpdu c pkt index now).r.Wf ∧
      (storeMpdu c pkt index now).owned = c.owned + {pkt} := by
  have hlb := h.length_buf
  have hil : index < c.r.reorderBuf.length := by omega
  have hlen := length_held_set_some pkt hil hb
  have hle := length_held_le (c.r.reorderBuf.set index (some pkt))
  refine ⟨⟨h.bufSize_pos, h.bufSize_lt, by simpa [storeMpdu] using hlb, ?_⟩, ?_⟩
  · have hst := h.stored
    have hlt := h.bufSize_lt
    rw [List.length_set] at hle
    simp only [storeMpdu]
    omega
  · simp only [RxCtx.owned, storeMpdu, held_set_some pkt hil hb, ← Multiset.singleton_add]
    abel

theorem recycleRxPkt_wf {c : RxCtx π} (h : c.r.Wf) (pkt : π) :
    (recycleRxPkt c pkt).r.Wf ∧ (recycleRxPkt c pkt).owned = c.owned + {pkt} := by
  refine ⟨h, ?_⟩
  simp only [RxCtx.owned, recycleRxPkt, ← Multiset.coe_add, Multiset.coe_singleton]
  abel

/-- A packet that is not reordered joins the packets delivered. -/
theorem owned_dontReorder (c : RxCtx π) (pkt : π) :
    (dontReorder c pkt).owned = c.owned + {pkt} := by
  simp only [RxCtx.owned, dontReorder, ← Multiset.coe_add, Multiset.coe_singleton]
  abel

/-! ## The loops -/

/-- The inner loop of the time-out scan only meets empty slots, so it recycles nothing. -/
theorem recycleBetween_eq {c : RxCtx π} {index t : ℕ} (hB : 0 < c.r.bufSize) (ht : 0 < t)
    (hempty : ∀ q, 0 < q → q < t → c.buf ((index + q) % c.r.bufSize) = none) :
    recycleBetween c index ((index + t) % c.r.bufSize) = some c := by
  set B := c.r.bufSize with hBdef
  set j := (index + t) % B with hj
  have hjB : j < B := Nat.mod_lt _ hB
  -- the index runs over `index + q` for `0 < q ≤ t`, and the context never changes
  obtain ⟨⟨i, c'⟩, hloop, ⟨q, -, -, hq⟩, -⟩ := whileLoop_total
    (fun s : ℕ × RxCtx π => decide (s.1 ≠ j))
    (fun s => some ((s.1 + 1) % s.2.r.bufSize, phlRecycleRxBuf s.2 (s.2.buf s.1)))
    (fun s => ∃ q, 0 < q ∧ q ≤ t ∧ s = ((index + q) % B, c)) (fun s => stepsTo B j s.1)
    (by
      rintro s ⟨q, hq0, hqt, rfl⟩ hne
      have hne' : (index + q) % B ≠ j := by simpa using hne
      have hlt : q < t := by
        rcases Nat.lt_or_eq_of_le hqt with h | rfl
        · exact h
        · exact absurd hj.symm hne'
      refine ⟨((index + (q + 1)) % B, c), ?_, ⟨q + 1, by omega, hlt, rfl⟩, ?_⟩
      · simp only [hempty q hq0 hlt, phlRecycleRxBuf, ← hBdef, cyclic_succ]
      · have hstep := stepsTo_succ_lt hjB (Nat.mod_lt (index + q) hB) hne'
        rwa [cyclic_succ] at hstep)
    B ((index + 1) % B, c) ⟨1, by omega, ht, rfl⟩ (stepsTo_lt hB _ _).le
  have hc : c' = c := congrArg Prod.snd hq
  simp only [recycleBetween, ← hBdef, hloop, Option.map_some, hc]

/-- The invariant of the time-out scan on the slots: after `t` steps the slots behind the scan
are empty. -/
def ScanInv (c₀ : RxCtx π) (index : ℕ) (s : Scan π) (t : ℕ) : Prop :=
  0 < t ∧ t ≤ c₀.r.bufSize ∧ s.j = (index + t) % c₀.r.bufSize ∧ Conserves c₀ s.c ∧
    ∀ q, 0 < q → q < t → s.c.buf ((index + q) % c₀.r.bufSize) = none

/-- While the scan has not come round, fewer than `buf_size` slots are behind it. -/
theorem ScanInv.lt {c₀ : RxCtx π} {index t : ℕ} {s : Scan π} (hinv : ScanInv c₀ index s t)
    (hi : index < c₀.r.bufSize) (hj : s.j ≠ index) : t < c₀.r.bufSize := by
  obtain ⟨-, htB, hjt, -, -⟩ := hinv
  rcases Nat.lt_or_eq_of_le htB with h | rfl
  · exact h
  · rw [Nat.add_mod_right, Nat.mod_eq_of_lt hi] at hjt
    exact absurd hjt hj

/-- What one iteration of the scan does: it stops, it skips a hole, or it releases the packet
in slot `j` and moves the head behind it. -/
theorem scanBody_eq {c₀ : RxCtx π} {index t : ℕ} {s : Scan π} (curTime : ℕ)
    (hinv : ScanInv c₀ index s t) :
    (s.c.buf s.j = none ∧
      scanBody index curTime s =
        some { s with skipped := s.skipped + 1, j := (index + (t + 1)) % c₀.r.bufSize }) ∨
    ((s.c.buf s.j).isSome ∧
      (scanBody index curTime s = some { s with stop := true } ∨
        scanBody index curTime s = some { s with
          c := (phlReleaseReorderFrame s.c s.j).setHead
            (((phlReleaseReorderFrame s.c s.j).r.headSeqNum + s.skipped) % 0x1000)
          j := (index + (t + 1)) % c₀.r.bufSize
          skipped := 0 })) := by
  obtain ⟨ht0, -, hj, hcons, hempty⟩ := hinv
  have hB : 0 < c₀.r.bufSize := hcons.bufSize ▸ hcons.wf.bufSize_pos
  have hnext : (s.j + 1) % c₀.r.bufSize = (index + (t + 1)) % c₀.r.bufSize := by
    rw [hj, cyclic_succ]
  cases hb : s.c.buf s.j with
  | none =>
    left
    refine ⟨rfl, ?_⟩
    simp only [scanBody, hb, hcons.bufSize, hnext]
  | some pkt =>
    right
    refine ⟨rfl, ?_⟩
    by_cases hwait :
        s.skipped ≠ 0 ∧ curTime < (s.c.r.reorderTime.getD s.j 0 + 100) % 0x100000000
    · left
      simp only [scanBody, hb, if_pos hwait]
    · right
      have hrec : recycleBetween s.c index s.j = some s.c := by
        rw [hj, ← hcons.bufSize]
        exact recycleBetween_eq (hcons.bufSize ▸ hB) ht0
          (fun q hq0 hqt => hcons.bufSize ▸ hempty q hq0 hqt)
      have hsize : (phlReleaseReorderFrame s.c s.j).r.bufSize = c₀.r.bufSize :=
        (phlReleaseReorderFrame_conserves hcons.wf s.j).bufSize.trans hcons.bufSize
      simp only [scanBody, hb, if_neg hwait, hrec, Option.bind_eq_bind, Option.bind_some, hsize,
        hnext]

/-- One iteration of the scan keeps its invariant; it stops or moves on by one slot. -/
theorem scanBody_inv {c₀ : RxCtx π} {index t : ℕ} {s : Scan π} (curTime : ℕ)
    (hi : index < c₀.r.bufSize) (hinv : ScanInv c₀ index s t) (hj : s.j ≠ index) :
    ∃ s', scanBody index curTime s = some s' ∧
      ((s'.stop = true ∧ ScanInv c₀ index s' t) ∨
        (s'.stop = s.stop ∧ ScanInv c₀ index s' (t + 1))) := by
  have hcases := scanBody_eq curTime hinv
  have htB' := hinv.lt hi hj
  obtain ⟨ht0, htB, hjt, hcons, hempty⟩ := hinv
  rcases hcases with ⟨hb, hs⟩ | ⟨-, hs | hs⟩
  · refine ⟨_, hs, Or.inr ⟨rfl, by omega, htB', rfl, hcons, fun q hq0 hqt => ?_⟩⟩
    rcases Nat.lt_or_eq_of_le (Nat.lt_succ_iff.mp hqt) with h | rfl
    · exact hempty q hq0 h
    · exact hjt ▸ hb
  · exact ⟨_, hs, Or.inl ⟨rfl, ht0, htB, hjt, hcons, hempty⟩⟩
  · have hrel := phlReleaseReorderFrame_conserves hcons.wf s.j
    refine ⟨_, hs, Or.inr ⟨rfl, by omega, htB', rfl,
      (hcons.trans hrel).trans (setHead_conserves hrel.wf _), fun q hq0 hqt => ?_⟩⟩
    rw [buf_setHead, buf_phlReleaseReorderFrame]
    split
    next => rfl
    next hne =>
      refine hempty q hq0 (lt_of_le_of_ne (Nat.lt_succ_iff.mp hqt) ?_)
      rintro rfl
      exact hne hjt.symm

/-- The time-out scan terminates and moves packets only from the buffer to `frames`. -/
theorem timeoutScan_conserves {c : RxCtx π} (h : c.r.Wf) (index curTime : ℕ)
    (hi : index < c.r.bufSize) :
    ∃ s, timeoutScan c index curTime = some s ∧ Conserves c s.c := by
  have hB := h.bufSize_pos
  obtain ⟨s, hs, ⟨t, hinv⟩, -⟩ := whileLoop_total
    (fun s : Scan π => !s.stop && decide (s.j ≠ index)) (scanBody index curTime)
    (fun s => ∃ t, ScanInv c index s t)
    (fun s => if s.stop then 0 else stepsTo c.r.bufSize index s.j)
    (by
      rintro s ⟨t, hinv⟩ hc
      obtain ⟨hstop, hj⟩ : s.stop = false ∧ s.j ≠ index := by simpa using hc
      obtain ⟨s', hs', hcase⟩ := scanBody_inv curTime hi hinv hj
      obtain ⟨ht0, -, hjt, -, -⟩ := hinv
      have hstep := stepsTo_succ_lt hi (hjt ▸ Nat.mod_lt _ hB : s.j < c.r.bufSize) hj
      refine ⟨s', hs', ?_⟩
      rcases hcase with ⟨hstop', hinv'⟩ | ⟨hstop', hinv'⟩
      · refine ⟨⟨t, hinv'⟩, ?_⟩
        simp only [hstop', hstop, if_true, Bool.false_eq_true, if_false]
        omega
      · refine ⟨⟨t + 1, hinv'⟩, ?_⟩
        obtain ⟨-, -, hjt', -, -⟩ := hinv'
        rw [hjt, cyclic_succ, ← hjt', ← hjt] at hstep
        simpa [hstop', hstop] using hstep)
    c.r.bufSize { c := c, j := (index + 1) % c.r.bufSize, skipped := 1, stop := false }
    ⟨1, by omega, hB, rfl, Conserves.refl h, fun q hq0 hq1 => by omega⟩
    (by simpa using (stepsTo_lt hB _ _).le)
  exact ⟨s, hs, hinv.2.2.2.1⟩

/-- The forward drain terminates: every iteration takes a packet out of the buffer. -/
theorem drain_conserves {c : RxCtx π} (h : c.r.Wf) :
    ∃ c', drain c = some c' ∧ Conserves c c' ∧
      c'.buf (reorderIndex c'.r c'.r.headSeqNum) = none := by
  obtain ⟨c', hc', hcons, hexit⟩ := whileLoop_total
    (fun c : RxCtx π => (c.buf (reorderIndex c.r c.r.headSeqNum)).isSome)
    (fun c => some (phlReleaseReorderFrame c (reorderIndex c.r c.r.headSeqNum)))
    (fun c' => Conserves c c') (fun c' => (held c'.r.reorderBuf).length)
    (by
      intro c₁ hcons hsome
      have hlen := length_held_phlReleaseReorderFrame hsome
      exact ⟨_, rfl, hcons.trans (phlReleaseReorderFrame_conserves hcons.wf _), by omega⟩)
    c.r.bufSize c (Conserves.refl h) (h.length_buf ▸ length_held_le _)
  exact ⟨c', hc', hcons, by simpa using hexit⟩

/-- The search for a stored packet terminates when there is one. -/
theorem searchStored_isSome {c : RxCtx π} (h : c.r.Wf) (hst : c.r.storedMpduNum ≠ 0) :
    ∃ j, searchStored c = some j := by
  have hB := h.bufSize_pos
  obtain ⟨i, pkt, hi⟩ := exists_slot_of_length_held_ne_zero (h.stored ▸ hst)
  have hiB : i < c.r.bufSize := h.length_buf ▸ lt_length_of_slot hi
  obtain ⟨j, hj, -, -⟩ := whileLoop_total
    (fun j : ℕ =>
      decide ((j : ℤ) ≠ (((c.r.headSeqNum % c.r.bufSize : ℕ) : ℤ) - 1).tmod c.r.bufSize) &&
        (c.buf j).isNone)
    (fun j => some ((j + 1) % c.r.bufSize))
    (fun j => j < c.r.bufSize) (fun j => stepsTo c.r.bufSize i j)
    (by
      intro j hjB hc
      have hne : j ≠ i := by
        rintro rfl
        have hnone : c.buf j = none := by simpa using (Bool.and_eq_true_iff.mp hc).2
        rw [RxCtx.buf, hi] at hnone
        cases hnone
      exact ⟨_, rfl, Nat.mod_lt _ hB, stepsTo_succ_lt hiB hjB hne⟩)
    c.r.bufSize (c.r.headSeqNum % c.r.bufSize) (Nat.mod_lt _ hB) (stepsTo_lt hB _ _).le
  exact ⟨j, hj⟩

theorem rearmTimer_conserves {c : RxCtx π} (h : c.r.Wf) :
    ∃ c', rearmTimer c = some c' ∧ Conserves c c' ∧ c'.r = c.r ∧ c'.frames = c.frames := by
  unfold rearmTimer
  split
  next hst =>
    obtain ⟨j, hj⟩ := searchStored_isSome h hst
    exact ⟨setReleaseTimer c, by rw [hj]; rfl, setReleaseTimer_conserves h, setReleaseTimer_r c,
      setReleaseTimer_frames c⟩
  next => exact ⟨_, rfl, setTimer_conserves h false, rfl, rfl⟩

/-! ## The entry points -/

/-- `phl_reorder_release` returns and conserves packets. -/
theorem phlReorderRelease_conserves {c : RxCtx π} (h : c.r.Wf) (curTime : ℕ) :
    ∃ c', phlReorderRelease c curTime = some c' ∧ Conserves c c' := by
  unfold phlReorderRelease
  simp only
  split
  · obtain ⟨s, hs, hcons⟩ :=
      timeoutScan_conserves h _ curTime (reorderIndex_lt h.bufSize_pos c.r.headSeqNum)
    rw [hs]
    simp only [Option.bind_eq_bind, Option.bind_some]
    split
    · exact ⟨_, rfl, hcons.trans (setReleaseTimer_conserves hcons.wf)⟩
    · obtain ⟨c', hc', hcons', -, -⟩ := rearmTimer_conserves hcons.wf
      exact ⟨c', hc', hcons.trans hcons'⟩
  · obtain ⟨c₁, hc₁, hcons₁, -⟩ := drain_conserves h
    obtain ⟨c', hc', hcons', -, -⟩ := rearmTimer_conserves hcons₁.wf
    exact ⟨c', by rw [hc₁]; exact hc', hcons₁.trans hcons'⟩

/-- A head that precedes the target gets one step closer to it. -/
theorem seqSub_seqInc_lt {head target : ℕ} (h : seqLess head target = true) :
    seqSub target (seqInc head) < seqSub target head := by
  have hlt : 0x800 < seqSub head target := of_decide_eq_true h
  simp only [seqSub, seqInc] at hlt ⊢
  omega

/-- `phl_release_reorder_frames` returns and conserves packets. -/
theorem phlReleaseReorderFrames_conserves {c : RxCtx π} (h : c.r.Wf) (head : ℕ) :
    ∃ c', phlReleaseReorderFrames c head = some c' ∧ Conserves c c' := by
  obtain ⟨c', hc', hcons, -⟩ := whileLoop_total
    (fun c : RxCtx π => seqLess c.r.headSeqNum head && decide (c.r.storedMpduNum ≠ 0))
    (fun c => some (phlReleaseReorderFrame c (reorderIndex c.r c.r.headSeqNum)))
    (fun c' => Conserves c c') (fun c' => seqSub head c'.r.headSeqNum)
    (by
      intro c₁ hcons hc
      refine ⟨_, rfl, hcons.trans (phlReleaseReorderFrame_conserves hcons.wf _), ?_⟩
      rw [headSeqNum_phlReleaseReorderFrame]
      exact seqSub_seqInc_lt (Bool.and_eq_true_iff.mp hc).1)
    0x1000 c (Conserves.refl h) (Nat.mod_lt _ (by decide)).le
  refine ⟨c'.setHead head, ?_, hcons.trans (setHead_conserves hcons.wf _)⟩
  simp only [phlReleaseReorderFrames, hc', Option.bind_eq_bind, Option.bind_some]

/-- `rtw_phl_rx_bar` returns and conserves packets. -/
theorem rxBar_conserves {c : RxCtx π} (h : c.r.Wf) (seq : ℕ) :
    ∃ c', rxBar c seq = some c' ∧ Conserves c c' := by
  unfold rxBar
  split
  · exact ⟨c, rfl, Conserves.refl h⟩
  · exact phlReleaseReorderFrames_conserves h seq

/-- What an MPDU call leaves behind: the MPDU joins the packets owned, or is handed back to the
caller for delivery. -/
structure Accepts (c : RxCtx π) (pkt : π) (c' : RxCtx π) (kept : Bool) : Prop where
  wf : c'.r.Wf
  owned : c'.owned + (if kept then 0 else {pkt}) = c.owned + {pkt}
  ssn : c'.r.ssn = c.r.ssn
  bufSize : c'.r.bufSize = c.r.bufSize

/-- Moving the window for an MPDU conserves packets. -/
theorem makeRoom_conserves {c : RxCtx π} (h : c.r.Wf) (mpduSeqNum : ℕ) :
    ∃ c', makeRoom c mpduSeqNum = some c' ∧ Conserves c c' := by
  unfold makeRoom
  split
  · exact ⟨c, rfl, Conserves.refl h⟩
  · exact phlReleaseReorderFrames_conserves h _

theorem manageStarted_accepts (seq : π → ℕ) {c : RxCtx π} (h : c.r.Wf) (pkt : π)
    (now now' : ℕ) :
    ∃ c' kept, manageStarted seq c pkt now now' = some (c', kept) ∧ Accepts c pkt c' kept := by
  unfold manageStarted
  simp only
  split
  · obtain ⟨hwf, howned⟩ := recycleRxPkt_wf h pkt
    exact ⟨_, _, rfl, hwf, by simpa using howned, rfl, rfl⟩
  · -- the window is moved first, if the MPDU lies beyond it
    obtain ⟨c₁, hc₁, hcons⟩ := makeRoom_conserves h (seq pkt)
    rw [hc₁]
    simp only [Option.bind_eq_bind, Option.bind_some]
    split
    · obtain ⟨hwf, howned⟩ := recycleRxPkt_wf hcons.wf pkt
      exact ⟨_, _, rfl, hwf, by simpa [hcons.owned] using howned, hcons.ssn, hcons.bufSize⟩
    · rename_i hfree
      split
      · have hhead := setHead_conserves hcons.wf (seqInc c₁.r.headSeqNum)
        exact ⟨_, _, rfl, hhead.wf, by simp [hhead.owned, hcons.owned],
          hhead.ssn.trans hcons.ssn, hhead.bufSize.trans hcons.bufSize⟩
      · obtain ⟨hwf, howned⟩ := storeMpdu_wf hcons.wf pkt now
          (reorderIndex_lt hcons.wf.bufSize_pos (seq pkt)) (by simpa using hfree)
        obtain ⟨c₂, hc₂, hcons₂⟩ := phlReorderRelease_conserves hwf now'
        refine ⟨c₂, true, by rw [hc₂]; rfl, hcons₂.wf, ?_, hcons₂.ssn.trans hcons.ssn,
          hcons₂.bufSize.trans hcons.bufSize⟩
        rw [hcons₂.owned, howned, hcons.owned]
        simp

/-- `phl_manage_sta_reorder_buf` returns and accounts for the MPDU exactly once. -/
theorem phlManageStaReorderBuf_accepts (seq : π → ℕ) {c : RxCtx π} (h : c.r.Wf) (pkt : π)
    (now now' : ℕ) :
    ∃ c' kept, phlManageStaReorderBuf seq c pkt now now' = some (c', kept) ∧
      Accepts c pkt c' kept := by
  unfold phlManageStaReorderBuf
  split
  · exact manageStarted_accepts seq h pkt now now'
  · split
    · exact ⟨c, false, rfl, h, by simp, rfl, rfl⟩
    · have hwf : ({ c.r with started := true } : TidAmpduRx π).Wf :=
        ⟨h.bufSize_pos, h.bufSize_lt, h.length_buf, h.stored⟩
      obtain ⟨c', kept, hc', hacc⟩ :=
        manageStarted_accepts seq (c := { c with r := _ }) hwf pkt now now'
      exact ⟨c', kept, hc', hacc.wf, hacc.owned, hacc.ssn, hacc.bufSize⟩

end Rtl88x2cu.RxReorder
