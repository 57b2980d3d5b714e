import Mathlib.Algebra.Order.Ring.Nat
import Mathlib.Data.List.Pairwise
import Rtl88x2cu.RxReorder.Conservation

/-!
# RX reordering: the window on unrolled sequence numbers

Sequence numbers live modulo 4096. Here every packet carries an *unrolled* number `u p : ℕ`, of
which the code only sees the residue, and the head of the session has an unrolled position `H`.
`Window u H r` says that the stored packets have their numbers in `[H, H + buf_size)` and sit in
the slots of these numbers.

If `buf_size` divides 4096 and is at most 1024, every operation of the session takes a window at
`H` to a window at some `H' ≥ H` and releases packets with increasing numbers in `[H, H')`:
this is `Moves u c H c' H'`, and it composes.

## Main results

* `phlReorderRelease_moves`, `phlReleaseReorderFrames_moves`, `makeRoom_moves` and
  `phlManageStaReorderBuf_moves`: one statement of that form for each operation.
-/

namespace Rtl88x2cu.RxReorder

variable {π : Type} {u : π → ℕ} {H H' H'' : ℕ} {c c' c'' : RxCtx π} {r : TidAmpduRx π}

/-! ## Arithmetic of sequence numbers -/

/-- The slot of a sequence number only depends on its residue. -/
theorem reorderIndex_congr (r : TidAmpduRx π) {x y : ℕ} (h : x % 0x1000 = y % 0x1000) :
    reorderIndex r x = reorderIndex r y := by
  unfold reorderIndex seqSub
  congr 1
  omega

/-- If the buffer size divides 4096, the slots of unrolled numbers go round the buffer without
a break where the sequence numbers wrap. -/
theorem reorderIndex_eq (hdvd : r.bufSize ∣ 0x1000) (x : ℕ) :
    reorderIndex r x = (x + (0x1000 - r.ssn % 0x1000)) % r.bufSize := by
  rw [reorderIndex, seqSub, Nat.mod_mod_of_dvd _ hdvd]

/-- Numbers of one window have pairwise different slots. -/
theorem reorderIndex_injective (hdvd : r.bufSize ∣ 0x1000) {x y : ℕ} (hx : H ≤ x)
    (hxB : x < H + r.bufSize) (hy : H ≤ y) (hyB : y < H + r.bufSize)
    (h : reorderIndex r x = reorderIndex r y) : x = y := by
  obtain ⟨s, rfl⟩ := Nat.exists_eq_add_of_le hx
  obtain ⟨t, rfl⟩ := Nat.exists_eq_add_of_le hy
  rw [reorderIndex_eq hdvd, reorderIndex_eq hdvd, Nat.add_right_comm H s, Nat.add_right_comm H t]
    at h
  rw [cyclic_injective (by omega) (by omega) h]

/-- Walking the buffer from the slot of `H` on meets the slots of `H + t`. -/
theorem reorderIndex_add (hdvd : r.bufSize ∣ 0x1000) (H t : ℕ) :
    (reorderIndex r H + t) % r.bufSize = reorderIndex r (H + t) := by
  rw [reorderIndex_eq hdvd, reorderIndex_eq hdvd, Nat.mod_add_mod, Nat.add_right_comm]

/-- The distance of two sequence numbers is that of their unrolled numbers, if it is small. -/
theorem seqSub_eq {sq1 sq2 L : ℕ} (h1 : sq1 % 0x1000 = L % 0x1000)
    (h2 : sq2 % 0x1000 = H % 0x1000) (hle : H ≤ L) (hlt : L < H + 0x1000) :
    seqSub sq1 sq2 = L - H := by
  unfold seqSub
  omega

/-- `seq_less` compares unrolled numbers that are at most 2047 apart. -/
theorem seqLess_iff {sq1 sq2 T : ℕ} (h1 : sq1 % 0x1000 = H % 0x1000)
    (h2 : sq2 % 0x1000 = T % 0x1000) (hle : H ≤ T) (hlt : T < H + 0x800) :
    seqLess sq1 sq2 = true ↔ H < T := by
  rw [seqLess, decide_eq_true_iff, seqSub]
  omega

/-! ## Windows -/

/-- The stored packets have their unrolled numbers in `[H, H + buf_size)` and sit in the slots
of these numbers; the head has the residue of `H`. -/
structure Window (u : π → ℕ) (H : ℕ) (r : TidAmpduRx π) : Prop where
  wf : r.Wf
  dvd : r.bufSize ∣ 0x1000
  le : r.bufSize ≤ 0x400
  head : r.headSeqNum % 0x1000 = H % 0x1000
  stored : ∀ i p, slot r.reorderBuf i = some p →
    H ≤ u p ∧ u p < H + r.bufSize ∧ i = reorderIndex r (u p)

/-- The head slot is the slot of `H`. -/
theorem Window.reorderIndex_head (h : Window u H r) :
    reorderIndex r r.headSeqNum = reorderIndex r H :=
  reorderIndex_congr r h.head

/-- The packet in the slot of a number of the window has that number. -/
theorem Window.eq_of_slot (h : Window u H r) {x : ℕ} {p : π} (hx : H ≤ x)
    (hxB : x < H + r.bufSize) (hp : slot r.reorderBuf (reorderIndex r x) = some p) :
    u p = x := by
  obtain ⟨hlo, hhi, hi⟩ := h.stored _ p hp
  exact (reorderIndex_injective h.dvd hx hxB hlo hhi hi).symm

/-- An empty buffer is a window anywhere. -/
theorem Window.of_empty (h : Window u H r) (hempty : r.storedMpduNum = 0) {head : ℕ}
    (hhead : head % 0x1000 = H' % 0x1000) : Window u H' { r with headSeqNum := head } := by
  refine ⟨⟨h.wf.bufSize_pos, h.wf.bufSize_lt, h.wf.length_buf, h.wf.stored⟩, h.dvd, h.le, hhead,
    fun i p hp => ?_⟩
  have hnone := slot_eq_none_of_length_held (h.wf.stored ▸ hempty) i
  rw [show slot r.reorderBuf i = some p from hp] at hnone
  cases hnone

/-! ## Releases -/

/-- The packets `fs` have increasing unrolled numbers in `[lo, hi)`. -/
structure Emits (u : π → ℕ) (lo hi : ℕ) (fs : List π) : Prop where
  sorted : fs.Pairwise (fun p q => u p < u q)
  bounds : ∀ p ∈ fs, lo ≤ u p ∧ u p < hi

theorem Emits.nil (u : π → ℕ) (lo hi : ℕ) : Emits u lo hi [] :=
  ⟨List.Pairwise.nil, fun p hp => by simp at hp⟩

theorem Emits.append {lo mid hi : ℕ} {fs gs : List π} (hfs : Emits u lo mid fs)
    (hgs : Emits u mid hi gs) (hlo : lo ≤ mid) (hhi : mid ≤ hi) : Emits u lo hi (fs ++ gs) := by
  refine ⟨List.pairwise_append.mpr ⟨hfs.sorted, hgs.sorted, fun p hp q hq => ?_⟩, ?_⟩
  · exact (hfs.bounds p hp).2.trans_le (hgs.bounds q hq).1
  · intro p hp
    rcases List.mem_append.mp hp with h | h
    · exact ⟨(hfs.bounds p h).1, (hfs.bounds p h).2.trans_le hhi⟩
    · exact ⟨hlo.trans (hgs.bounds p h).1, (hgs.bounds p h).2⟩

/-- `c'` has its window at `H' ≥ H`, and the packets released since `c` have increasing numbers
in between. -/
structure Moves (u : π → ℕ) (c : RxCtx π) (H : ℕ) (c' : RxCtx π) (H' : ℕ) : Prop where
  window : Window u H' c'.r
  le : H ≤ H'
  emits : ∃ fs, c'.frames = c.frames ++ fs ∧ Emits u H H' fs
  bufSize : c'.r.bufSize = c.r.bufSize

theorem Moves.refl (h : Window u H c.r) : Moves u c H c H :=
  ⟨h, le_rfl, ⟨[], by simp, Emits.nil u H H⟩, rfl⟩

theorem Moves.trans (h₁ : Moves u c H c' H') (h₂ : Moves u c' H' c'' H'') :
    Moves u c H c'' H'' := by
  obtain ⟨fs, hfs, hemit⟩ := h₁.emits
  obtain ⟨gs, hgs, hemit'⟩ := h₂.emits
  refine ⟨h₂.window, h₁.le.trans h₂.le, ⟨fs ++ gs, ?_, hemit.append hemit' h₁.le h₂.le⟩,
    h₂.bufSize.trans h₁.bufSize⟩
  rw [hgs, hfs, List.append_assoc]

/-- Moving the window without a release. -/
theorem Moves.of_frames_eq (hw : Window u H' c'.r) (hle : H ≤ H') (hf : c'.frames = c.frames)
    (hB : c'.r.bufSize = c.r.bufSize) : Moves u c H c' H' :=
  ⟨hw, hle, ⟨[], by simp [hf], Emits.nil u H H'⟩, hB⟩

/-- Whatever only touches the timer keeps the window. -/
theorem Moves.of_r_eq (h : Moves u c H c' H') (hr : c''.r = c'.r)
    (hf : c''.frames = c'.frames) : Moves u c H c'' H' :=
  ⟨hr ▸ h.window, h.le, hf ▸ h.emits, hr ▸ h.bufSize⟩

/-- The slots of a session do not move. -/
theorem Conserves.reorderIndex (h : Conserves c c') (x : ℕ) :
    reorderIndex c'.r x = reorderIndex c.r x := by
  simp only [RxReorder.reorderIndex, h.ssn, h.bufSize]

/-- Releasing the slot of a number `x` of the window that precedes all stored packets moves the
window behind `x`. -/
theorem releaseSlot_moves (h : Window u H c.r) (head : ℕ) {x : ℕ} (hx : H ≤ x)
    (hxB : x < H + c.r.bufSize) (hlow : ∀ i p, c.buf i = some p → x ≤ u p)
    (hhead : head % 0x1000 = (x + 1) % 0x1000) :
    Moves u c H ((phlReleaseReorderFrame c (reorderIndex c.r x)).setHead head) (x + 1) := by
  set i₀ := reorderIndex c.r x with hi₀
  have hrel := phlReleaseReorderFrame_conserves h.wf i₀
  have hset := setHead_conserves hrel.wf head
  have hcons := hrel.trans hset
  refine ⟨⟨hcons.wf, hcons.bufSize ▸ h.dvd, hcons.bufSize ▸ h.le, hhead, fun i p hp => ?_⟩,
    by omega, ⟨(c.buf i₀).toList, frames_phlReleaseReorderFrame c i₀, ?_⟩, hcons.bufSize⟩
  · -- what is left in the buffer is not in the slot of `x`, hence lies strictly behind it
    have hp' : (phlReleaseReorderFrame c i₀).buf i = some p := hp
    rw [buf_phlReleaseReorderFrame] at hp'
    split at hp'
    next => cases hp'
    next hne =>
      obtain ⟨-, hhi, hi⟩ := h.stored i p hp'
      have hxp : x ≠ u p := fun heq => hne (by rw [hi, hi₀, heq])
      have hle := hlow i p hp'
      refine ⟨by omega, ?_, ?_⟩
      · rw [hcons.bufSize]
        omega
      · rw [hcons.reorderIndex]
        exact hi
  · cases hb : c.buf i₀ with
    | none => exact Emits.nil u H (x + 1)
    | some p =>
      have hup : u p = x := h.eq_of_slot hx hxB hb
      exact ⟨List.pairwise_singleton _ _, fun q hq => by
        obtain rfl : q = p := by simpa using hq
        omega⟩

/-- Releasing the head slot moves the window by one. -/
theorem releaseHead_moves (h : Window u H c.r) :
    Moves u c H (phlReleaseReorderFrame c (reorderIndex c.r c.r.headSeqNum)) (H + 1) := by
  rw [h.reorderIndex_head]
  have hB := h.wf.bufSize_pos
  have hhead := h.head
  refine releaseSlot_moves h (seqInc c.r.headSeqNum) le_rfl (by omega)
    (fun i p hp => (h.stored i p hp).1) ?_ |>.of_r_eq ?_ rfl
  · unfold seqInc
    omega
  · simp only [RxCtx.setHead, ← headSeqNum_phlReleaseReorderFrame c (reorderIndex c.r H)]

/-! ## The time-out scan -/

/-- The scan after `t` slots: the window is at the first of the holes skipped, and everything
stored lies at `H₀ + t` or beyond. -/
structure ScanWindow (u : π → ℕ) (c₀ : RxCtx π) (H₀ : ℕ) (s : Scan π) (t : ℕ) : Prop where
  skipped : s.skipped ≤ t
  moves : Moves u c₀ H₀ s.c (H₀ + t - s.skipped)
  ahead : ∀ i p, s.c.buf i = some p → H₀ + t ≤ u p ∧ u p < H₀ + c₀.r.bufSize

/-- One iteration of the scan keeps the window, whether it stops, skips a hole or releases. -/
theorem scanBody_window {c₀ : RxCtx π} {s s' : Scan π} {H₀ t curTime : ℕ}
    (h₀ : Window u H₀ c₀.r) (hinv : ScanInv c₀ (reorderIndex c₀.r H₀) s t)
    (hw : ScanWindow u c₀ H₀ s t) (ht : t < c₀.r.bufSize) (hstop : s.stop = false)
    (hs : scanBody (reorderIndex c₀.r H₀) curTime s = some s') :
    (s'.stop = true ∧ ScanWindow u c₀ H₀ s' t) ∨
      (s'.stop = false ∧ ScanWindow u c₀ H₀ s' (t + 1)) := by
  have hcases := scanBody_eq curTime hinv
  obtain ⟨-, -, hj, hcons, -⟩ := hinv
  obtain ⟨hsk, hmoves, hahead⟩ := hw
  have hj' : s.j = reorderIndex s.c.r (H₀ + t) := by
    rw [hj, reorderIndex_add h₀.dvd, hcons.reorderIndex]
  rcases hcases with ⟨hb, heq⟩ | ⟨-, heq | heq⟩ <;> obtain rfl := Option.some.inj (hs ▸ heq)
  · -- a hole: nothing stored has the number `H₀ + t`
    refine Or.inr ⟨hstop, by simpa using hsk, ?_, fun i p hp => ?_⟩
    · rwa [show H₀ + (t + 1) - (s.skipped + 1) = H₀ + t - s.skipped by omega]
    · obtain ⟨hlo, hhi⟩ := hahead i p hp
      refine ⟨?_, hhi⟩
      have hne : u p ≠ H₀ + t := by
        intro hup
        obtain ⟨-, -, hi⟩ := hmoves.window.stored i p hp
        have hpj : s.c.buf s.j = some p := by
          rw [hj', ← hup, ← hi]
          exact hp
        rw [hb] at hpj
        cases hpj
      omega
  · exact Or.inl ⟨rfl, hsk, hmoves, hahead⟩
  · have hhead := hmoves.window.head
    have hrel := releaseSlot_moves hmoves.window
      (((phlReleaseReorderFrame s.c s.j).r.headSeqNum + s.skipped) % 0x1000)
      (x := H₀ + t) (by omega) (by rw [hcons.bufSize]; omega)
      (fun i p hp => (hahead i p hp).1) (by
        rw [headSeqNum_phlReleaseReorderFrame, seqInc]
        omega)
    rw [← hj'] at hrel
    refine Or.inr ⟨hstop, Nat.zero_le _, hmoves.trans hrel, fun i p hp => ?_⟩
    -- the packets left were there before, and lie in the window behind the one released
    obtain ⟨hlo, -, -⟩ := hrel.window.stored i p hp
    rw [buf_setHead, buf_phlReleaseReorderFrame] at hp
    split at hp
    next => cases hp
    next => exact ⟨hlo, (hahead i p hp).2⟩

/-- The time-out scan moves the window forward. -/
theorem timeoutScan_moves (h : Window u H c.r) {curTime : ℕ} {s : Scan π}
    (hnone : c.buf (reorderIndex c.r H) = none)
    (hs : timeoutScan c (reorderIndex c.r H) curTime = some s) :
    ∃ H', Moves u c H s.c H' ∧ H' ≤ H + c.r.bufSize := by
  have hB := h.wf.bufSize_pos
  have hi := reorderIndex_lt hB H
  -- the scan starts behind the head slot, which is empty
  set s₁ : Scan π :=
    { c := c, j := (reorderIndex c.r H + 1) % c.r.bufSize, skipped := 1, stop := false }
  have hinv₁ : ScanInv c (reorderIndex c.r H) s₁ 1 :=
    ⟨by omega, hB, rfl, Conserves.refl h.wf, fun q hq0 hq1 => by omega⟩
  have hwin₁ : ScanWindow u c H s₁ 1 := by
    have hmoves : Moves u c H c (H + 1 - 1) := by
      rw [Nat.add_sub_cancel]
      exact Moves.refl h
    refine ⟨le_rfl, hmoves, fun i p hp => ?_⟩
    obtain ⟨hlo, hhi, hidx⟩ := h.stored i p hp
    refine ⟨?_, hhi⟩
    have hne : u p ≠ H := by
      rintro rfl
      have hp' : c.buf (reorderIndex c.r (u p)) = some p := hidx ▸ hp
      rw [hnone] at hp'
      cases hp'
    omega
  obtain ⟨⟨t, hinv, hwin⟩, -⟩ := whileLoop_invariant
    (fun s => ∃ t, ScanInv c (reorderIndex c.r H) s t ∧ ScanWindow u c H s t)
    (by
      rintro s s' ⟨t, hinv, hwin⟩ hcond hbody
      obtain ⟨hstop, hj⟩ : s.stop = false ∧ s.j ≠ reorderIndex c.r H := by simpa using hcond
      obtain ⟨s₁, hs₁, hcase⟩ := scanBody_inv curTime hi hinv hj
      obtain rfl : s₁ = s' := Option.some.inj (hs₁ ▸ hbody)
      have ht := hinv.lt hi hj
      rcases hcase with ⟨hst, hinv'⟩ | ⟨hst, hinv'⟩ <;>
        rcases scanBody_window h hinv hwin ht hstop hbody with ⟨hst', hw'⟩ | ⟨hst', hw'⟩
      · exact ⟨t, hinv', hw'⟩
      · simp_all
      · simp_all
      · exact ⟨t + 1, hinv', hw'⟩)
    c.r.bufSize s₁ s ⟨1, hinv₁, hwin₁⟩ hs
  have htB := hinv.2.1
  exact ⟨_, hwin.moves, by omega⟩

/-! ## The operations -/

/-- The forward drain moves the window forward. -/
theorem drain_moves (h : Window u H c.r) (hc : drain c = some c') :
    ∃ H', Moves u c H c' H' ∧ H' ≤ H + c.r.bufSize := by
  -- what is stored during the drain was stored before, in the window at `H`
  obtain ⟨⟨H', hmoves, hle, -⟩, -⟩ := whileLoop_invariant
    (fun c' => ∃ H', Moves u c H c' H' ∧ H' ≤ H + c.r.bufSize ∧
      ∀ i p, c'.buf i = some p → u p < H + c.r.bufSize) (by
      rintro c₁ c₂ ⟨H₁, hmoves, -, hlow⟩ hcond hbody
      obtain rfl := Option.some.inj hbody
      obtain ⟨p, hp⟩ := Option.isSome_iff_exists.mp hcond
      have hB₁ := hmoves.window.wf.bufSize_pos
      have hup : u p = H₁ := by
        rw [hmoves.window.reorderIndex_head] at hp
        exact hmoves.window.eq_of_slot le_rfl (by omega) hp
      have hlt := hlow _ p hp
      refine ⟨H₁ + 1, hmoves.trans (releaseHead_moves hmoves.window), by omega, fun i q hq => ?_⟩
      rw [buf_phlReleaseReorderFrame] at hq
      split at hq
      next => cases hq
      next => exact hlow i q hq)
    _ c c' ⟨H, Moves.refl h, by omega, fun i p hp => (h.stored i p hp).2.1⟩ hc
  exact ⟨H', hmoves, hle⟩

/-- `phl_reorder_release` moves the window forward. -/
theorem phlReorderRelease_moves (h : Window u H c.r) {curTime : ℕ}
    (hc : phlReorderRelease c curTime = some c') :
    ∃ H', Moves u c H c' H' ∧ H' ≤ H + c.r.bufSize := by
  unfold phlReorderRelease at hc
  simp only at hc
  split at hc
  next hcond =>
    rw [h.reorderIndex_head] at hc hcond
    obtain ⟨s, hs, hc⟩ := Option.bind_eq_some_iff.mp hc
    obtain ⟨H', hmoves, hle⟩ := timeoutScan_moves h (by simpa using hcond.1) hs
    refine ⟨H', ?_, hle⟩
    split at hc
    · obtain rfl := Option.some.inj hc
      exact hmoves.of_r_eq (setReleaseTimer_r s.c) (setReleaseTimer_frames s.c)
    · obtain ⟨c₁, hc₁, -, hr, hf⟩ := rearmTimer_conserves hmoves.window.wf
      obtain rfl : c₁ = c' := Option.some.inj (hc₁ ▸ hc)
      exact hmoves.of_r_eq hr hf
  next =>
    obtain ⟨c₀, hc₀, hc⟩ := Option.bind_eq_some_iff.mp hc
    obtain ⟨H', hmoves, hle⟩ := drain_moves h hc₀
    obtain ⟨c₁, hc₁, -, hr, hf⟩ := rearmTimer_conserves hmoves.window.wf
    obtain rfl : c₁ = c' := Option.some.inj (hc₁ ▸ hc)
    exact ⟨H', hmoves.of_r_eq hr hf, hle⟩

/-- A buffer of one slot is empty whenever `phl_reorder_release` returns. -/
theorem phlReorderRelease_empty (h : c.r.Wf) (hB : c.r.bufSize = 1) {curTime : ℕ}
    (hc : phlReorderRelease c curTime = some c') : c'.r.storedMpduNum = 0 := by
  have hzero : ∀ {c₁ : RxCtx π}, c₁.r.Wf → c₁.r.bufSize = 1 →
      c₁.buf (reorderIndex c₁.r c₁.r.headSeqNum) = none → c₁.r.storedMpduNum = 0 := by
    intro c₁ hwf h1 hnone
    by_contra hst
    obtain ⟨i, p, hp⟩ := exists_slot_of_length_held_ne_zero (hwf.stored ▸ hst)
    have hi := hwf.length_buf ▸ lt_length_of_slot hp
    have hidx := reorderIndex_lt hwf.bufSize_pos c₁.r.headSeqNum
    rw [show reorderIndex c₁.r c₁.r.headSeqNum = i by omega, RxCtx.buf, hp] at hnone
    cases hnone
  unfold phlReorderRelease at hc
  simp only at hc
  split at hc
  next hcond => exact absurd (hzero h hB (by simpa using hcond.1)) hcond.2
  next =>
    obtain ⟨c₁, hc₁, hcons, hnone⟩ := drain_conserves h
    obtain ⟨c₂, hc₂, -, hr, -⟩ := rearmTimer_conserves hcons.wf
    simp only [hc₁, hc₂, Option.bind_eq_bind, Option.bind_some, Option.some.injEq] at hc
    rw [← hc, hr]
    exact hzero hcons.wf (hcons.bufSize.trans hB) hnone

/-- `phl_release_reorder_frames` moves the window to its target, if that is less than 2048 ahead
or nothing is stored. -/
theorem phlReleaseReorderFrames_moves (h : Window u H c.r) {head T : ℕ}
    (hT : head % 0x1000 = T % 0x1000) (hle : H ≤ T)
    (hfar : T < H + 0x800 ∨ c.r.storedMpduNum = 0)
    (hc : phlReleaseReorderFrames c head = some c') : Moves u c H c' T := by
  obtain ⟨c₁, hc₁, hc⟩ := Option.bind_eq_some_iff.mp hc
  obtain rfl := Option.some.inj hc
  -- while packets are stored, the head walks up to the target
  obtain ⟨⟨H₁, hmoves, hH₁, hstored⟩, hexit⟩ := whileLoop_invariant
    (fun c₁ => ∃ H₁, Moves u c H c₁ H₁ ∧ H₁ ≤ T ∧
      (T < H + 0x800 ∨ c₁.r.storedMpduNum = 0)) (by
      rintro c₁ c₂ ⟨H₁, hmoves, hH₁, hfar₁⟩ hcond hbody
      obtain rfl := Option.some.inj hbody
      obtain ⟨hless, hst⟩ : seqLess c₁.r.headSeqNum head = true ∧ c₁.r.storedMpduNum ≠ 0 := by
        simpa using hcond
      have hlt : T < H + 0x800 := hfar₁.resolve_right hst
      have hHH₁ := hmoves.le
      have hstep := (seqLess_iff hmoves.window.head hT hH₁ (by omega)).mp hless
      exact ⟨H₁ + 1, hmoves.trans (releaseHead_moves hmoves.window), hstep, Or.inl hlt⟩)
    _ c c₁ ⟨H, Moves.refl h, hle, hfar⟩ hc₁
  refine hmoves.trans ?_
  have hHH₁ := hmoves.le
  by_cases hst : c₁.r.storedMpduNum = 0
  · exact Moves.of_frames_eq (hmoves.window.of_empty hst hT) hH₁ rfl rfl
  · have hlt : T < H + 0x800 := hstored.resolve_right hst
    have hless : ¬ seqLess c₁.r.headSeqNum head = true := by simpa [hst] using hexit
    rw [seqLess_iff hmoves.window.head hT hH₁ (by omega)] at hless
    obtain rfl : H₁ = T := by omega
    have hw := hmoves.window
    exact Moves.of_frames_eq ⟨⟨hw.wf.bufSize_pos, hw.wf.bufSize_lt, hw.wf.length_buf,
      hw.wf.stored⟩, hw.dvd, hw.le, hT, hw.stored⟩ le_rfl rfl rfl

/-- Making room for an MPDU at most 2048 ahead moves the window so that it contains the MPDU. -/
theorem makeRoom_moves (h : Window u H c.r) {mpduSeqNum L : ℕ}
    (hL : mpduSeqNum % 0x1000 = L % 0x1000) (hle : H ≤ L)
    (hfar : L < H + 0x800 ∨ L = H + 0x800 ∧ (c.r.bufSize = 1 → c.r.storedMpduNum = 0))
    (hc : makeRoom c mpduSeqNum = some c') :
    ∃ H', Moves u c H c' H' ∧ H' ≤ L ∧ L < H' + c.r.bufSize := by
  have hB := h.wf.bufSize_pos
  have hBle := h.le
  have hhead := h.head
  unfold makeRoom at hc
  split at hc
  next hless =>
    obtain rfl := Option.some.inj hc
    refine ⟨H, Moves.refl h, hle, ?_⟩
    rw [seqLess, decide_eq_true_iff, seqSub] at hless
    omega
  next hless =>
    rw [seqLess, decide_eq_true_iff, seqSub] at hless
    refine ⟨L + 1 - c.r.bufSize, phlReleaseReorderFrames_moves h ?_ ?_ ?_ hc, ?_, ?_⟩
    · unfold seqInc seqSub
      omega
    · omega
    · rcases hfar with hlt | ⟨heq, hone⟩
      · left
        omega
      · by_cases h1 : c.r.bufSize = 1
        · exact Or.inr (hone h1)
        · left
          omega
    · omega
    · omega

/-- Storing an MPDU of the window in its slot keeps the window. -/
theorem storeMpdu_window (h : Window u H c.r) (now : ℕ) {pkt : π} {mpduSeqNum : ℕ}
    (hseq : mpduSeqNum % 0x1000 = u pkt % 0x1000) (hlo : H ≤ u pkt)
    (hhi : u pkt < H + c.r.bufSize) (hfree : c.buf (reorderIndex c.r mpduSeqNum) = none) :
    Window u H (storeMpdu c pkt (reorderIndex c.r mpduSeqNum) now).r := by
  have hidx := reorderIndex_congr c.r hseq
  have hlt := reorderIndex_lt h.wf.bufSize_pos (u pkt)
  rw [hidx] at hfree ⊢
  refine ⟨(storeMpdu_wf h.wf pkt now hlt hfree).1, h.dvd, h.le, h.head, fun i p hp => ?_⟩
  by_cases hi : reorderIndex c.r (u pkt) = i
  · subst hi
    rw [storeMpdu, slot_set_self _ (h.wf.length_buf ▸ hlt)] at hp
    obtain rfl := Option.some.inj hp
    exact ⟨hlo, hhi, rfl⟩
  · rw [storeMpdu, slot_set_ne _ hi] at hp
    exact h.stored i p hp

/-- An MPDU that is not old moves the window forward, and is itself released in order if it is
not kept. -/
theorem manageStarted_moves (seq : π → ℕ) (h : Window u H c.r) {pkt : π} {now now' : ℕ}
    {kept : Bool}
    (hu : seqLess (seq pkt) c.r.headSeqNum = false →
      u pkt = H + seqSub (seq pkt) c.r.headSeqNum)
    (hfar : seqSub (seq pkt) c.r.headSeqNum ≠ 0x800 ∨
      (c.r.bufSize = 1 → c.r.storedMpduNum = 0))
    (hc : manageStarted seq c pkt now now' = some (c', kept)) :
    ∃ H', Moves u c H (if kept then c' else dontReorder c' pkt) H' ∧ H' < H + 0x1000 := by
  unfold manageStarted at hc
  simp only at hc
  split at hc
  next =>
    obtain ⟨rfl, rfl⟩ := Prod.mk.inj (Option.some.inj hc)
    exact ⟨H, (Moves.refl h).of_r_eq rfl rfl, by omega⟩
  next hold =>
    have hL := hu (by simpa using hold)
    have hseq : seq pkt % 0x1000 = u pkt % 0x1000 := by
      have hhead := h.head
      rw [hL, seqSub]
      omega
    have hdist : seqSub (seq pkt) c.r.headSeqNum ≤ 0x800 := by
      rw [seqLess, decide_eq_true_iff] at hold
      omega
    obtain ⟨c₁, hc₁, hc⟩ := Option.bind_eq_some_iff.mp hc
    obtain ⟨H₁, hmoves, hlo, hhi⟩ := makeRoom_moves h hseq (by omega) (by
      rcases hfar with hne | hone
      · left
        omega
      · by_cases heq : seqSub (seq pkt) c.r.headSeqNum = 0x800
        · exact Or.inr ⟨by omega, hone⟩
        · left
          omega) hc₁
    have hB₁ := hmoves.bufSize
    split at hc
    next =>
      obtain ⟨rfl, rfl⟩ := Prod.mk.inj (Option.some.inj hc)
      exact ⟨H₁, hmoves.of_r_eq rfl rfl, by omega⟩
    next hfree =>
      split at hc
      next hfast =>
        -- the fast path: the MPDU is at the head of an empty window
        obtain ⟨rfl, rfl⟩ := Prod.mk.inj (Option.some.inj hc)
        have hhead₁ := hmoves.window.head
        have hle₁ := hmoves.window.le
        have hup : u pkt = H₁ := by omega
        refine ⟨H₁ + 1, hmoves.trans ⟨hmoves.window.of_empty hfast.2 ?_, by omega,
          ⟨[pkt], rfl, List.pairwise_singleton _ _, fun q hq => ?_⟩, rfl⟩, by omega⟩
        · unfold seqInc
          omega
        · obtain rfl : q = pkt := by simpa using hq
          omega
      next =>
        obtain ⟨c₂, hc₂, hc⟩ := Option.bind_eq_some_iff.mp hc
        obtain ⟨rfl, rfl⟩ := Prod.mk.inj (Option.some.inj hc)
        have hstore := storeMpdu_window hmoves.window now hseq hlo (by omega)
          (by simpa using hfree)
        obtain ⟨H₂, hmoves₂, hle₂⟩ := phlReorderRelease_moves hstore hc₂
        have hle₁ : c₁.r.bufSize ≤ 0x400 := hmoves.window.le
        refine ⟨H₂, (hmoves.trans (Moves.of_frames_eq hstore le_rfl rfl rfl)).trans hmoves₂, ?_⟩
        calc H₂ ≤ H₁ + c₁.r.bufSize := hle₂
          _ < H + 0x1000 := by omega

/-- `phl_manage_sta_reorder_buf` moves the window forward, unless the session has not started
and the MPDU precedes its first sequence number. -/
theorem phlManageStaReorderBuf_moves (seq : π → ℕ) (h : Window u H c.r) {pkt : π}
    {now now' : ℕ} {kept : Bool}
    (hu : seqLess (seq pkt) c.r.headSeqNum = false →
      u pkt = H + seqSub (seq pkt) c.r.headSeqNum)
    (hfar : seqSub (seq pkt) c.r.headSeqNum ≠ 0x800 ∨
      (c.r.bufSize = 1 → c.r.storedMpduNum = 0))
    (hc : phlManageStaReorderBuf seq c pkt now now' = some (c', kept)) :
    (c' = c ∧ c.r.started = false) ∨
      ∃ H', Moves u c H (if kept then c' else dontReorder c' pkt) H' ∧ H' < H + 0x1000 := by
  unfold phlManageStaReorderBuf at hc
  split at hc
  next => exact Or.inr (manageStarted_moves seq h hu hfar hc)
  next hns =>
    split at hc
    next =>
      obtain ⟨rfl, rfl⟩ := Prod.mk.inj (Option.some.inj hc)
      exact Or.inl ⟨rfl, by simpa using hns⟩
    next =>
      have hw : Window u H { c.r with started := true } :=
        ⟨⟨h.wf.bufSize_pos, h.wf.bufSize_lt, h.wf.length_buf, h.wf.stored⟩, h.dvd, h.le, h.head,
          h.stored⟩
      obtain ⟨H', hmoves, hlt⟩ := manageStarted_moves seq (c := { c with r := _ }) hw hu hfar hc
      exact Or.inr ⟨H', ⟨hmoves.window, hmoves.le, hmoves.emits, hmoves.bufSize⟩, hlt⟩

/-- `rtw_phl_rx_bar` moves the window forward, unless its start sequence number is exactly half
the sequence space ahead while packets are stored. -/
theorem rxBar_moves (h : Window u H c.r) {seq : ℕ}
    (hfar : seqSub seq c.r.headSeqNum ≠ 0x800 ∨ c.r.storedMpduNum = 0)
    (hc : rxBar c seq = some c') : ∃ H', Moves u c H c' H' ∧ H' < H + 0x1000 := by
  unfold rxBar at hc
  split at hc
  next =>
    obtain rfl := Option.some.inj hc
    exact ⟨H, Moves.refl h, by omega⟩
  next hless =>
    rw [seqLess, decide_eq_true_iff] at hless
    have hhead := h.head
    have hT : seq % 0x1000 = (H + seqSub seq c.r.headSeqNum) % 0x1000 := by
      unfold seqSub
      omega
    refine ⟨_, phlReleaseReorderFrames_moves h hT (by omega) ?_ hc, by omega⟩
    rcases hfar with hne | hst
    · left
      omega
    · exact Or.inr hst

end Rtl88x2cu.RxReorder
