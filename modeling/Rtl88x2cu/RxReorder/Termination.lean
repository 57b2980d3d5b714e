import Rtl88x2cu.RxReorder.Ownership

/-!
# RX reordering: the loops of `phl_reorder_release`

The scan loops of `phl_reorder_release` go round the buffer until they are back at their start or
meet a stored packet. The last one, the search for a packet left in the buffer, can only count on
the second: its bound is `(index - 1) % buf_size`, which is `-1` for the slot 0, and no index
reaches that. It is entered only while `stored_mpdu_num` is not zero.

* `run_loopsEnd`: whatever has happened on the RX path, every loop ends, for each context in which
  the function can be entered. The counter agrees with the slots, so the search finds a packet.
* `search_eq_none`: with an empty buffer the search would not end.
-/

namespace Rtl88x2cu.RxReorder

section Loops

variable {π : Type}

/-- Every loop of `phl_reorder_release` ends, entered in the context `c` at the time `curTime`. -/
structure LoopsEnd (c : RxCtx π) (curTime : ℕ) : Prop where
  /-- The forward drain, and then the search. -/
  drain : ∃ c', drain c = some c' ∧ (c'.r.storedMpduNum ≠ 0 → ∃ j, searchStored c' = some j)
  /-- The time-out scan with its inner loop, and then the search. -/
  scan : ∃ s, timeoutScan c (reorderIndex c.r c.r.headSeqNum) curTime = some s ∧
    (s.c.r.storedMpduNum ≠ 0 → ∃ j, searchStored s.c = some j)
  /-- The search, from `c`. -/
  search : c.r.storedMpduNum ≠ 0 → ∃ j, searchStored c = some j
  /-- The whole function returns. -/
  release : ∃ c', phlReorderRelease c curTime = some c'

/-- The loops end if the counter counts the stored packets, for any head and any buffer. -/
theorem loopsEnd_of_wf {c : RxCtx π} (h : c.r.Wf) (curTime : ℕ) : LoopsEnd c curTime := by
  have hindex := reorderIndex_lt h.bufSize_pos c.r.headSeqNum
  obtain ⟨c₁, hdrain, hc₁, -⟩ := drain_conserves h
  obtain ⟨s, hscan, hs⟩ := timeoutScan_conserves h _ curTime hindex
  obtain ⟨c₂, hrelease, -⟩ := phlReorderRelease_conserves h curTime
  exact
    { drain := ⟨c₁, hdrain, searchStored_isSome hc₁.wf⟩
      scan := ⟨s, hscan, searchStored_isSome hs.wf⟩
      search := searchStored_isSome h
      release := ⟨c₂, hrelease⟩ }

/-- With nothing stored, the search that starts at the slot 0 does not end, however often it goes
round a buffer of more than one slot. -/
theorem search_eq_none {c : RxCtx π} (hB : 1 < c.r.bufSize) (hempty : ∀ i, c.buf i = none)
    (n : ℕ) :
    whileLoop (fun j : ℕ => decide ((j : ℤ) ≠ ((0 : ℤ) - 1).tmod c.r.bufSize) && (c.buf j).isNone)
      (fun j => some ((j + 1) % c.r.bufSize)) n 0 = none := by
  have hbound : ((0 : ℤ) - 1).tmod c.r.bufSize = -1 := by
    rw [Int.zero_sub, Int.neg_tmod, Int.tmod_eq_of_lt (by decide) (by exact_mod_cast hB)]
  refine whileLoop_eq_none (fun _ => True) (fun j _ => ?_) n trivial
  rw [hbound, hempty]
  simp

end Loops

/-! ## Runs of the RX path -/

variable {ι ρ : Type}

/-- The contexts in which `phl_reorder_release` is entered. -/
inductive Enters (st : RxPath ι ρ) : RxCtx (RxPkt ι ρ) → Prop
  /-- The reorder timer has expired. -/
  | timer {k : ι × Fin 8} {r : TidAmpduRx (RxPkt ι ρ)} (hr : st.tidRx k = some r) :
    Enters st (st.enter k.1 r)
  /-- An MPDU has been stored in its empty slot, when the window had been moved. -/
  | mpdu {k : ι × Fin 8} {r : TidAmpduRx (RxPkt ι ρ)} {c : RxCtx (RxPkt ι ρ)} (pkt : RxPkt ι ρ)
    (now : ℕ) (hr : st.tidRx k = some r)
    (hroom : makeRoom (st.enter k.1 { r with started := true }) pkt.seq = some c)
    (hslot : c.buf (reorderIndex c.r pkt.seq) = none) :
    Enters st (storeMpdu c pkt (reorderIndex c.r pkt.seq) now)

theorem Enters.wf {st : RxPath ι ρ} (hst : ∀ k r, st.tidRx k = some r → r.Wf)
    {c : RxCtx (RxPkt ι ρ)} (h : Enters st c) : c.r.Wf := by
  rcases h with hr | @⟨k, r, c₁, pkt, now, hr, hroom, hslot⟩
  · exact hst _ _ hr
  · have hwf := hst k r hr
    have hstarted : (st.enter k.1 { r with started := true }).r.Wf :=
      ⟨hwf.bufSize_pos, hwf.bufSize_lt, hwf.length_buf, hwf.stored⟩
    obtain ⟨c', hc', hcons⟩ := makeRoom_conserves hstarted pkt.seq
    obtain rfl := Option.some.inj (hc'.symm.trans hroom)
    exact (storeMpdu_wf hcons.wf pkt now (reorderIndex_lt hcons.wf.bufSize_pos pkt.seq) hslot).1

/-- In every state of the RX path that can be reached, the loops of `phl_reorder_release` end. -/
theorem run_loopsEnd [Fintype ι] [DecidableEq ι] {es : List (RxEvent ι ρ)} {st : RxPath ι ρ}
    (hst : run rxPathStep (RxPath.empty ι ρ) es = some st) {c : RxCtx (RxPkt ι ρ)}
    (hc : Enters st c) (curTime : ℕ) : LoopsEnd c curTime := by
  have hbounds := run_forall (fun _ _ _ => inBounds_of_rxPathStep) hst
  have hinv := run_preserves RxPath.Inv (fun s e s' hs he hs' => ?_) inv_empty
    (guarded_of_forall hbounds _) hst
  · exact loopsEnd_of_wf (hc.wf hinv.wf) curTime
  · obtain ⟨s'', hs'', hinv⟩ := rxPathStep_inv s e hs he
    obtain rfl := Option.some.inj (hs''.symm.trans hs')
    exact hinv

/-- A session in which the MPDU 1 waits for the MPDU 0. -/
def holeRun : List (RxEvent (Fin 1) Unit) :=
  [.startBa 0 0 0 0 4 true,
    .rx ⟨fun _ => some 0, fun _ => some (), fun _ => none, fun _ _ => none⟩ false
      ⟨1, ⟨0, 1, false, false, true, false, false, 0, false, false, true, 0, [], []⟩, 100, none,
        none⟩ 0 0]

theorem run_loopsEnd_holeRun :
    ∃ st r, run rxPathStep (RxPath.empty (Fin 1) Unit) holeRun = some st ∧
      st.tidRx (0, 0) = some r ∧ r.storedMpduNum = 1 ∧ LoopsEnd (st.enter 0 r) 100 := by
  obtain ⟨st, hst⟩ : ∃ st, run rxPathStep (RxPath.empty (Fin 1) Unit) holeRun = some st := ⟨_, rfl⟩
  obtain ⟨r, hr, hstored⟩ : ∃ r, st.tidRx (0, 0) = some r ∧ r.storedMpduNum = 1 := by
    cases hst
    exact ⟨_, rfl, rfl⟩
  exact ⟨st, r, hst, hr, hstored, run_loopsEnd hst (.timer hr) 100⟩

end Rtl88x2cu.RxReorder
