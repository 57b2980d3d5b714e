import Rtl88x2cu.Scan.CmdScanInv

/-!
# Every run of a scan request

Each step of the dispatcher thread keeps the invariant of a scan request, as long as the thread
does not leave while the token is released and not yet taken, and no other scan ends while this
one is on. So `scan_complete` is called once for the request and with its end, the timer is released
once, and the hardware is as it was before the scan.
-/

namespace Rtl88x2cu.Scan.Cmd

open Dispatcher (TokenSlot ReqSlot RtwPhlStatus OpType)

/-! ## Steps of the dispatcher thread -/

section

variable {s : St} {m : ScanMsg} {b : Bool}

/-- The invariant where the thread is at a known place. -/
theorem Inv.at (h : Inv s) {pc : Pc} (hpc : s.pc = pc) :
    Life s.slot pc.kind s.stAcquire s.completes (aborts (s.msgs ++ pc.hand)) ∧
      TimerOk s.slot.status.enq pc.kind s.stAcquire s.stStarted s.completes s.timer ∧
      StartOk s.msgs pc.handled s.stAcquire s.stStarted s.param.scanCh ∧
      IoOk s.stDfIo pc.cannotIo s.slot.started s.removed s.ioLost := by
  subst hpc
  exact ⟨h.life, h.timer, h.start, h.io⟩

/-- A request that has not been acquired has not started a scan. -/
theorem Inv.not_started (h : Inv s) (hacq : ¬s.stAcquire) : s.stStarted = false :=
  Bool.eq_false_iff.mpr fun hst => hacq (h.start.startedAcq hst)

theorem Inv.acquire (h : Inv s) (hpc : s.pc = .loop) (henq : s.slot.status.enq) :
    Inv { s with slot := s.slot.take, pc := .acquired } := by
  obtain ⟨hl, ht, hst, hio⟩ := h.at hpc
  have hacq := (hl.enq henq).2
  have hinits := ht.ofEnq henq
  refine ⟨hl.take henq, ?_, hst, ?_, ?_⟩
  · refine ⟨nofun, ht.ofAcq, fun _ => ⟨hinits, ?_⟩, ht.armed⟩
    have hrel := (ht.notAcq hacq).1
    dsimp only
    rw [hrel, hinits]
  · exact ⟨h.hw.sets, h.hw.undos, fun _ hs => absurd (h.start.startedAcq hs) hacq⟩
  · exact hio

theorem Inv.acquiredTimedOut (h : Inv s) (hpc : s.pc = .acquired) :
    Inv { s with pc := .refused } := by
  obtain ⟨hl, ht, hst, hio⟩ := h.at hpc
  obtain ⟨hcur, hacq, hrun, hrel⟩ := hl.kind
  refine ⟨hl.of_kind ?_ ⟨hcur, hacq, hrun, hrel⟩ id fun he => (hl.enq he).2, ?_, hst, h.hw, hio⟩
  · simp [Pc.kind, pending, hcur, hrel]
  · refine ⟨ht.ofEnq, ht.ofAcq, fun hna => ?_, ht.armed⟩
    obtain ⟨hinits, hrels⟩ := ht.notAcq hna
    show s.timer.releases = s.timer.inits ∧ s.timer.inits ≤ 1
    omega

theorem Inv.acquiredInit (h : Inv s) (hpc : s.pc = .acquired) :
    Inv { s with timer := { s.timer with inits := s.timer.inits + 1 }, pc := .sendStart } := by
  obtain ⟨hl, ht, hst, hio⟩ := h.at hpc
  obtain ⟨hcur, hacq, hrun, hrel⟩ := hl.kind
  refine ⟨hl.of_kind rfl ⟨hcur, hacq, hrun, hrel⟩ id fun he => (hl.enq he).2, ?_, hst, h.hw, hio⟩
  refine ⟨fun he => absurd hcur (hl.enq he).1, fun ha => absurd ha hacq, fun hna => ?_, ht.armed⟩
  obtain ⟨hinits, hrels⟩ := ht.notAcq hna
  show s.timer.inits + 1 = 1 ∧ s.timer.releases = 0
  omega

theorem Inv.sendStart (h : Inv s) (hpc : s.pc = .sendStart) (room : Bool) :
    Inv (if (phlDispEngSendMsg s room .scanStart .none false).2 = .success then
        { (phlDispEngSendMsg s room .scanStart .none false).1 with stAcquire := true, pc := .loop }
      else { (phlDispEngSendMsg s room .scanStart .none false).1 with
        timer := { (phlDispEngSendMsg s room .scanStart .none false).1.timer with
          releases := (phlDispEngSendMsg s room .scanStart .none false).1.timer.releases + 1 }
        pc := .refused }) := by
  obtain ⟨hl, ht, hst, hio⟩ := h.at hpc
  obtain ⟨hcur, hacq, hrun, hrel⟩ := hl.kind
  have henq : ¬s.slot.status.enq := fun he => (hl.enq he).1 hcur
  have hnot := h.not_started hacq
  have hzero := hl.completes_eq_zero (by simp [Pc.kind, pending, hcur, hrel])
  obtain ⟨hinits, hrels⟩ := ht.notAcq hacq
  rcases phlDispEngSendMsg_cases h room .scanStart .none false with ⟨hne, hs⟩ | hs
  · rw [if_neg hne, hs]
    refine ⟨hl.of_kind ?_ ⟨hcur, hacq, hrun, hrel⟩ id fun he => (hl.enq he).2, ?_, hst, h.hw, hio⟩
    · simp [Pc.kind, pending, hcur, hrel]
    · refine ⟨fun he => absurd he henq, fun ha => absurd ha hacq, fun _ => ?_, ht.armed⟩
      show s.timer.releases + 1 = s.timer.inits ∧ s.timer.inits ≤ 1
      omega
  · rw [hs, if_pos rfl]
    refine ⟨?_, ?_, ?_, h.hw, hio⟩ <;> dsimp only
    · have ha : aborts (s.msgs ++ [⟨.scanStart, false, s.slot.active, .none⟩] ++ []) =
          aborts (s.msgs ++ []) := by simp [aborts]
      rw [show Pc.loop.hand = [] from rfl, ha]
      exact hl.of_kind rfl (fun _ => ⟨rfl, hrun⟩) (fun _ => rfl) fun he => absurd he henq
    · exact ⟨fun he => absurd he henq, fun _ => ⟨hinits, by rw [hrels, hzero]⟩,
        fun h => absurd rfl h, ht.armed⟩
    · -- the first message of the request
      have hnone : starts s.msgs = 0 := by simpa [Pc.handled] using hst.notAcq hacq
      refine ⟨fun _ => rfl, hst.ofScanCh, ?_, ?_, fun h => absurd rfl h⟩
      · intro m hm he
        simp only [Pc.handled, List.append_nil, List.mem_append, List.mem_singleton] at hm
        rcases hm with hm | rfl
        · exact hst.swch m (List.mem_append_left _ hm) he
        · cases he
      · rw [show Pc.loop.handled = [] from rfl, List.append_nil, starts_append, hnone, hnot]
        rfl

theorem StartOk.mapCancel {l r : List ScanMsg} {acq started : Bool} {ch : Option PhlScanChannel}
    (h : StartOk l r acq started ch) :
    StartOk (l.map fun m => { m with cancelled := true, ownerReq := false }) [] acq started ch := by
  have h' := h.handled
  have hs := starts_map_cancel l
  refine ⟨h'.startedAcq, h'.ofScanCh, ?_, ?_, ?_⟩
  · intro m hm he
    rw [List.append_nil] at hm
    obtain ⟨m', hm', rfl⟩ := List.mem_map.mp hm
    exact h.swch m' (List.mem_append_left _ hm') he
  · rw [List.append_nil, hs]; exact List.append_nil l ▸ h'.once
  · rw [List.append_nil, hs]; exact List.append_nil l ▸ h'.notAcq

/-- `acquired` fails: the request ends at once. -/
theorem Inv.refused (h : Inv s) (hpc : s.pc = .refused) (room : Bool) :
    Inv { unload (cmdAbortNotify s false room) with
      slot := (unload (cmdAbortNotify s false room)).slot.release, pc := .loop } := by
  obtain ⟨hl, ht, hst, hio⟩ := h.at hpc
  obtain ⟨hcur, hacq, hrun, hrel⟩ := hl.kind
  have hnot := h.not_started hacq
  have honce := hl.once
  simp only [Pc.kind, pending, Bool.toNat_true] at honce
  have haborts : aborts (s.msgs.map fun m => { m with cancelled := true, ownerReq := false }) =
      0 := by
    rw [aborts_map_cancel]
    rw [aborts_append] at honce
    omega
  have habort : cmdAbortNotify s false room =
      { s with result := some .abort, completes := s.completes + 1 } := by
    unfold cmdAbortNotify
    rw [if_neg hacq]
  rw [habort]
  refine ⟨?_, ?_, hst.mapCancel, ?_, hio⟩ <;>
    simp only [unload, Pc.hand, List.append_nil, haborts]
  · exact life_gone (by omega) rfl rfl hrel fun h => by cases h
  · refine ⟨(fun h => by cases h), fun ha => absurd ha hacq, ht.notAcq, fun harmed => ?_⟩
    have hstarted := (ht.armed harmed).1
    rw [hnot] at hstarted
    cases hstarted
  · refine ⟨h.hw.sets, ?_, fun h => by cases h⟩
    have hundos := h.hw.undos
    have hzero : s.completes = 0 := by omega
    rw [if_pos hzero] at hundos
    simp [hundos, hnot]

/-- The thread ends the scan after it has released the token. -/
theorem Inv.ending (h : Inv s) (hpc : s.pc = .ending m b) :
    Inv { cmdScanEnd s with pc := .recycle m false b } := by
  obtain ⟨hl, ht, hst, hio⟩ := h.at hpc
  obtain ⟨hcur, hacq, hrun, hrel⟩ := hl.kind
  have hzero := hl.completes_eq_zero rfl
  have henq : ¬s.slot.status.enq := fun he => (hl.enq he).2 hacq
  rw [cmdScanEnd_eq]
  exact ⟨hl.complete, ht.scanEnd henq hacq, hst, h.hw.scanEnd hzero, hio⟩

/-! ### Messages -/

/-- A message other than that of an abort is done with. -/
theorem Inv.recycled (h : Inv s) {cancelled : Bool} (hpc : s.pc = .recycle m cancelled b)
    (habort : m.completion ≠ .abort) : Inv { s with pc := .loop } := by
  obtain ⟨hl, ht, hst, hio⟩ := h.at hpc
  have ha : aborts (s.msgs ++ [m]) = aborts (s.msgs ++ []) := by
    simp [aborts, habort]
  rw [show (Pc.recycle m cancelled b).hand = [m] from rfl, ha] at hl
  exact ⟨hl, ht, hst, h.hw, ⟨hio.dfIo, (fun h => by cases h), hio.stopped, hio.removed⟩⟩

/-- The message of an abort ends the scan. -/
theorem Inv.abortNotifyCb (h : Inv s) {cancelled : Bool} (hpc : s.pc = .recycle m cancelled b)
    (habort : m.completion = .abort) : Inv { cmdAbortNotifyCb s b with pc := .loop } := by
  obtain ⟨hl, ht, hst, hio⟩ := h.at hpc
  have ha : aborts (s.msgs ++ [m]) = aborts (s.msgs ++ []) + 1 := by
    simp [aborts, habort]
  rw [show (Pc.recycle m cancelled b).hand = [m] from rfl, ha] at hl
  obtain ⟨hacq, hcur⟩ := hl.abortMsg (Nat.succ_pos _)
  have henq : ¬s.slot.status.enq := fun he => (hl.enq he).2 hacq
  have hzero : s.completes = 0 := by
    have honce := hl.once
    omega
  have hcannot : b → s.ioLost := hio.cannotIo
  have hend : ∀ d : Bool, (d → s.ioLost) →
      Inv { cmdScanEnd { s with stDfIo := d } with pc := .loop } := by
    intro d hd
    have hhw : HwOk s.slot.cur s.stStarted d s.completes s.hw s.param := by
      refine ⟨h.hw.sets, ?_, h.hw.tx⟩
      have hundos := h.hw.undos
      rw [if_pos hzero] at hundos ⊢
      exact hundos
    rw [cmdScanEnd_eq]
    refine ⟨hl.completeAbort, ht.scanEnd henq hacq, hst, ?_, hd, (fun h => by cases h), hio.stopped,
      hio.removed⟩
    exact HwOk.scanEnd (s := { s with stDfIo := d }) hhw hzero
  unfold cmdAbortNotifyCb
  cases b with
  | false => exact hend s.stDfIo hio.dfIo
  | true => exact hend true hcannot

theorem Inv.recycle (h : Inv s) {cancelled : Bool} (hpc : s.pc = .recycle m cancelled b)
    (room : Bool) : Inv { complete s m cancelled b room with pc := .loop } := by
  unfold complete
  cases hc : m.completion with
  | none => exact h.recycled hpc (by simp [hc])
  | swchDone => exact h.recycled hpc (by simp [hc])
  | timer =>
    have h' := h.recycled hpc (by simp [hc])
    cases cancelled with
    | false => exact h'
    | true =>
      dsimp only
      rw [if_pos rfl, cmdScanTimer, phlDispEngSendMsg_pc _ _ _ _ _ _ (by simp)]
      exact h'.send room false (by simp) (by simp) (by simp)
  | abort => exact h.abortNotifyCb hpc hc

theorem IoOk.take {dfIo c started removed ioLost : Bool}
    (h : IoOk dfIo c started removed ioLost) (b : Bool) :
    IoOk dfIo b started removed (ioLost || b) where
  dfIo hd := Bool.or_eq_true _ _ ▸ Or.inl (h.dfIo hd)
  cannotIo hb := Bool.or_eq_true _ _ ▸ Or.inr hb
  stopped hs := Bool.or_eq_true _ _ ▸ Or.inl (h.stopped hs)
  removed hr := Bool.or_eq_true _ _ ▸ Or.inl (h.removed hr)

/-- The thread takes a message out of the queue to recycle it. -/
theorem Inv.takeRecycle (h : Inv s) (hpc : s.pc = .loop) (hm : m ∈ s.msgs) (cancelled : Bool) :
    Inv { s with
      msgs := s.msgs.erase m
      ioLost := s.ioLost || b
      pc := .recycle m cancelled b } := by
  obtain ⟨hl, ht, hst, hio⟩ := h.at hpc
  refine ⟨?_, ht, hst.mono ?_ ?_, h.hw, hio.take b⟩
  · rw [show Pc.loop.hand = [] from rfl, List.append_nil, ← aborts_erase hm] at hl
    exact hl
  · intro m' hm'
    rw [show (Pc.recycle m cancelled b).handled = [] from rfl, List.append_nil] at hm'
    exact List.mem_append_left _ (List.mem_of_mem_erase hm')
  · exact (List.erase_sublist.append_right _).countP_le

/-- The thread takes a message out of the queue for the request. -/
theorem Inv.takeHandle (h : Inv s) (hpc : s.pc = .loop) (hm : m ∈ s.msgs)
    (hactive : s.slot.active) (failed : Bool) :
    Inv { s with
      msgs := s.msgs.erase m
      ioLost := s.ioLost || b
      pc := .handle m failed b } := by
  obtain ⟨hl, ht, hst, hio⟩ := h.at hpc
  rw [show Pc.loop.hand = [] from rfl, List.append_nil, ← aborts_erase hm] at hl
  have hd := hl.deliver hactive
  obtain ⟨hcur, hacq, -, -⟩ := hd.kind
  have henq : ¬s.slot.status.enq := fun he => (hl.enq he).2 hacq
  refine ⟨hd, ht.of_acq henq hacq, hst.mono ?_ ?_, h.hw, hio.take b⟩
  · intro m' hm'
    simp only [Pc.handled, List.mem_append, List.mem_singleton] at hm'
    rcases hm' with hm' | rfl
    · exact List.mem_append_left _ (List.mem_of_mem_erase hm')
    · exact List.mem_append_left _ hm
  · show starts (s.msgs.erase m ++ [m]) ≤ starts (s.msgs ++ [])
    rw [List.append_nil]
    exact (starts_erase hm).le

theorem Inv.takeMsg (h : Inv s) (hpc : s.pc = .loop) (o : Outcome) {t : St}
    (ht : takeMsg s m o b = some t) : Inv t := by
  unfold Cmd.takeMsg at ht
  obtain ⟨hm, ht⟩ := Option.ite_none_right_eq_some.mp ht
  cases o with
  | cancelled =>
    obtain rfl := Option.some.inj ht
    exact h.takeRecycle hpc hm true
  | failed =>
    obtain ⟨-, ht⟩ := Option.ite_none_right_eq_some.mp ht
    split at ht
    · next ho =>
      obtain rfl := Option.some.inj ht
      exact h.takeHandle hpc hm ho.2 true
    · obtain rfl := Option.some.inj ht
      exact h.takeRecycle hpc hm false
  | passed =>
    obtain ⟨-, ht⟩ := Option.ite_none_right_eq_some.mp ht
    split at ht
    · next hactive =>
      obtain rfl := Option.some.inj ht
      exact h.takeHandle hpc hm hactive false
    · obtain rfl := Option.some.inj ht
      exact h.takeRecycle hpc hm false

/-! ### The end of the request -/

/-- The dispatcher answers so only when it is stopped. -/
theorem phlDispEngSendMsg_unexpectedError {s : St} {room : Bool} {evt : Evt} {c : Completion}
    {a : Bool} (h : (phlDispEngSendMsg s room evt c a).2 = .unexpectedError) :
    ¬s.slot.started := by
  intro hs
  unfold phlDispEngSendMsg at h
  simp only [hs, Bool.not_true, Bool.false_eq_true, if_false] at h
  split_ifs at h

/-- A request that is gone: its scan has ended, or its end is in flight. -/
theorem inv_gone {t : St} (hpc : t.pc = .loop) (hstatus : t.slot.status = {})
    (hcur : t.slot.cur = false) (hrel : ¬released t.slot)
    (honce : t.completes + aborts t.msgs = 1) (habort : 0 < aborts t.msgs → t.stAcquire)
    (htimer : TimerOk false .idle t.stAcquire t.stStarted t.completes t.timer)
    (hmsgs : StartOk t.msgs [] t.stAcquire t.stStarted t.param.scanCh)
    (hhw : HwOk false t.stStarted t.stDfIo t.completes t.hw t.param)
    (hio : IoOk t.stDfIo false t.slot.started t.removed t.ioLost) : Inv t := by
  have henq : t.slot.status.enq = false := by rw [hstatus]
  refine ⟨?_, ?_, ?_, ?_, ?_⟩
  · rw [hpc, show Pc.loop.hand = [] from rfl, List.append_nil]
    exact life_gone honce hstatus hcur hrel habort
  · rw [henq, hpc]
    exact htimer
  · rw [hpc]
    exact hmsgs
  · rw [hcur]
    exact hhw
  · rw [hpc]
    exact hio

/-- Before the abort handler nobody else is to end the scan. -/
theorem Inv.ofAbort (h : Inv s) {fromOp : Bool} (hpc : s.pc = .abort fromOp) :
    s.completes = 0 ∧ aborts s.msgs = 0 ∧ s.hw.undos = 0 := by
  have honce := (h.at hpc).1.once
  rw [show pending s.slot (Pc.abort fromOp).kind = true from rfl, Bool.toNat_true,
    show (Pc.abort fromOp).hand = [] from rfl, List.append_nil] at honce
  have hzero : s.completes = 0 := by omega
  have hundos := h.hw.undos
  rw [if_pos hzero] at hundos
  exact ⟨hzero, by omega, hundos⟩

/-- The abort of a request that has not been acquired. -/
theorem Inv.abortedWaiting (h : Inv s) {fromOp : Bool} (hpc : s.pc = .abort fromOp)
    {slot : TokenSlot} (hstatus : slot.status = {}) (hcur : slot.cur = false)
    (hrel : ¬released slot) (hstarted : slot.started = s.slot.started) (hacq : ¬s.stAcquire) :
    Inv { s with
      result := some .abort
      completes := s.completes + 1
      slot := slot
      pc := .loop } := by
  obtain ⟨-, ht, hst, hio⟩ := h.at hpc
  obtain ⟨hzero, hnone, hundos⟩ := h.ofAbort hpc
  have hnot := h.not_started hacq
  refine inv_gone rfl hstatus hcur hrel ?_ ?_ ?_ hst ?_ ?_ <;> dsimp only
  · omega
  · intro ha
    omega
  · refine ⟨nofun, fun ha => absurd ha hacq, ht.notAcq, fun ha => ?_⟩
    have hstarted := (ht.armed ha).1
    rw [hnot] at hstarted
    cases hstarted
  · exact ⟨h.hw.sets, by simp [hundos, hnot], nofun⟩
  · rw [hstarted]
    exact hio

/-- The abort of a request that holds the token: its end is sent as a message, or happens here. -/
theorem Inv.abortedRunning (h : Inv s) {fromOp : Bool} (hpc : s.pc = .abort fromOp)
    {slot : TokenSlot} (hstatus : slot.status = {}) (hcur : slot.cur = false)
    (hrel : ¬released slot) (hstarted : slot.started = s.slot.started) (hacq : s.stAcquire)
    (room : Bool) : Inv { cmdAbortNotify s true room with slot := slot, pc := .loop } := by
  obtain ⟨hl, ht, hst, hio⟩ := h.at hpc
  obtain ⟨hzero, hnone, hundos⟩ := h.ofAbort hpc
  have henq : ¬s.slot.status.enq := fun he => (hl.enq he).2 hacq
  have h' : Inv { s with result := some .cancel } := ⟨h.life, h.timer, h.start, h.hw, h.io⟩
  have hend : ∀ d : Bool, (d → s.ioLost) →
      Inv { cmdScanEnd { s with result := some .cancel, stDfIo := d } with
        slot := slot, pc := .loop } := by
    intro d hd
    have hhw : HwOk s.slot.cur s.stStarted d s.completes s.hw s.param := by
      refine ⟨h.hw.sets, ?_, h.hw.tx⟩
      rw [if_pos hzero]
      exact hundos
    rw [cmdScanEnd_eq]
    refine inv_gone rfl hstatus hcur hrel ?_ ?_ ?_ hst ?_ ?_ <;> dsimp only
    · omega
    · intro ha
      omega
    · exact ht.scanEnd nofun hacq
    · exact HwOk.scanEnd (s := { s with result := some .cancel, stDfIo := d }) hhw hzero
    · rw [hstarted]
      exact ⟨hd, nofun, hio.stopped, hio.removed⟩
  unfold cmdAbortNotify
  rw [if_pos hacq]
  dsimp only
  rcases phlDispEngSendMsg_cases h' room .scanEnd .abort true with ⟨hne, hs⟩ | hs
  · rw [if_neg hne, hs]
    unfold cmdAbortNotifyCb
    rw [if_neg Bool.false_ne_true]
    split
    · next hlost =>
      refine hend true fun _ => ?_
      rcases hlost with hu | hrem
      · have hstopped := phlDispEngSendMsg_unexpectedError hu
        exact hio.stopped hstopped
      · exact hio.removed hrem
    · exact hend s.stDfIo hio.dfIo
  · rw [hs, if_pos rfl]
    have hone : aborts (s.msgs ++ [⟨.scanEnd, false, s.slot.active, .abort⟩]) = 1 := by
      rw [aborts_append, hnone]
      rfl
    refine inv_gone rfl hstatus hcur hrel ?_ ?_ ?_ ?_ ?_ ?_ <;> dsimp only
    · rw [hone, hzero]
    · exact fun _ => hacq
    · exact ht.of_acq nofun hacq
    · exact hst.append nofun nofun
    · exact ⟨h.hw.sets, h.hw.undos, nofun⟩
    · rw [hstarted]
      exact hio

theorem cmdAbortNotifyCb_slot (s : St) (b : Bool) : (cmdAbortNotifyCb s b).slot = s.slot := by
  unfold cmdAbortNotifyCb cmdScanEnd
  cases b <;> dsimp only <;> split_ifs <;> rfl

theorem phlDispEngSendMsg_slot (s : St) (room : Bool) (evt : Evt) (c : Completion) (a : Bool) :
    (phlDispEngSendMsg s room evt c a).1.slot = s.slot := by
  unfold phlDispEngSendMsg
  split_ifs <;> first | rfl | exact cmdAbortNotifyCb_slot s false

theorem cmdAbortNotify_slot (s : St) (abort room : Bool) :
    (cmdAbortNotify s abort room).slot = s.slot := by
  unfold cmdAbortNotify
  dsimp only
  split_ifs
  · exact phlDispEngSendMsg_slot _ _ _ _ _
  · exact (cmdAbortNotifyCb_slot _ _).trans (phlDispEngSendMsg_slot _ _ _ _ _)
  · exact (cmdAbortNotifyCb_slot _ _).trans (phlDispEngSendMsg_slot _ _ _ _ _)
  · rfl

theorem Inv.abort (h : Inv s) {fromOp : Bool} (hpc : s.pc = .abort fromOp) (room : Bool) :
    Inv (phlCmdScanReqAbort s fromOp room) := by
  obtain ⟨hrel, -⟩ := (h.at hpc).1.kind
  have hdone (slot : TokenSlot) (hstatus : slot.status = {}) (hcur : slot.cur = false)
      (hrel : ¬released slot) (hstarted : slot.started = s.slot.started) :
      Inv { cmdAbortNotify s true room with slot := slot, pc := .loop } := by
    by_cases hacq : s.stAcquire
    · exact h.abortedRunning hpc hstatus hcur hrel hstarted hacq room
    · have habort := h.abortedWaiting hpc hstatus hcur hrel hstarted hacq
      unfold cmdAbortNotify
      rw [if_neg hacq]
      exact habort
  unfold phlCmdScanReqAbort
  dsimp only
  rw [cmdAbortNotify_slot]
  cases fromOp with
  | true => exact hdone _ rfl rfl nofun rfl
  | false => exact hdone _ rfl rfl hrel rfl

theorem TimerOk.abort {enq acq started : Bool} {n : ℕ} {tm : Timer}
    (h : TimerOk enq .idle acq started n tm) : TimerOk enq .abort acq started n tm :=
  ⟨h.ofEnq, h.ofAcq, h.notAcq, h.armed⟩

/-- The request is about to be aborted. -/
theorem Inv.unloadNotify (h : Inv s) (hpc : s.pc = .loop) (fromOp : Bool) (hcur : s.slot.cur)
    (hrel : ¬released s.slot) : Inv (unloadNotify s fromOp) := by
  obtain ⟨hl, ht, hst, hio⟩ := h.at hpc
  have ha : aborts (s.msgs.map (fun m => { m with cancelled := true, ownerReq := false }) ++ []) =
      aborts (s.msgs ++ []) := by
    rw [List.append_nil, List.append_nil, aborts_map_cancel]
  have hlife := hl.unloadNotify hcur hrel
  rw [show Pc.loop.hand = [] from rfl, ← ha] at hlife
  exact ⟨hlife, ht.abort, hst.mapCancel, h.hw, hio⟩

/-- The abort of the request that waits. -/
theorem Inv.abortWaiting (h : Inv s) (hpc : s.pc = .loop) (fromOp : Bool)
    (henq : s.slot.status.enq) : Inv { s with pc := .abort fromOp } := by
  obtain ⟨hl, ht, hst, hio⟩ := h.at hpc
  exact ⟨hl.abortWaiting henq, ht.abort, hst, h.hw, hio⟩

/-- A token operation that finds nothing to do. -/
theorem Inv.finishOp (h : Inv s) (hrel : ¬released s.slot) :
    Inv { s with slot := s.slot.finishOp } := by
  have hrel' : released s.slot.finishOp = released s.slot := by
    rw [Bool.eq_false_iff.mpr hrel]
    rfl
  exact h.onSlot (h.life.congr rfl rfl rfl id rfl hrel') ⟨rfl, rfl, rfl⟩

/-- The token is taken from the request. -/
theorem Inv.freed_gone (h : Inv s) (hpc : s.pc = .loop) (hrel : released s.slot) :
    Inv { unload s with slot := s.slot.release.finishOp } := by
  obtain ⟨hl, ht, hst, hio⟩ := h.at hpc
  have honce := hl.once
  rw [show Pc.loop.hand = [] from rfl, List.append_nil,
    show pending s.slot Pc.loop.kind = false by simp [Pc.kind, pending, hrel]] at honce
  have ha := aborts_map_cancel s.msgs
  refine inv_gone hpc rfl rfl (fun h => by cases h) ?_ ?_ ?_ hst.mapCancel ?_ hio <;> dsimp only [unload]
  · rw [ha]
    simpa using honce
  · intro hpos
    refine (hl.abortMsg ?_).1
    rw [show Pc.loop.hand = [] from rfl, List.append_nil, ← ha]
    exact hpos
  · exact ⟨(fun h => by cases h), ht.ofAcq, ht.notAcq, ht.armed⟩
  · exact ⟨h.hw.sets, h.hw.undos, fun h => by cases h⟩

theorem Inv.tokenOp (h : Inv s) (hpc : s.pc = .loop) (hused : s.slot.freeReqInfo.used) :
    Inv (handleTokenOp s) := by
  obtain ⟨hl, -, -, -⟩ := h.at hpc
  have hrel (hty : s.slot.freeReqInfo.type ≠ some .freeCmdReq) : ¬released s.slot := by
    simp [released, hty]
  unfold handleTokenOp
  split
  · next hty =>
    have hrel : released s.slot := by simp [released, hused, hty]
    have hcur := (hl.rel hrel).1
    rw [if_pos (hl.kind hcur).2]
    exact h.freed_gone hpc hrel
  · next hty =>
    have hnrel := hrel (by simp [hty])
    split_ifs with henq hrun
    · exact h.abortWaiting hpc true henq
    · exact h.unloadNotify hpc true (hl.runCur hrun) hnrel
    · exact h.finishOp hnrel
  · next hfree _ => exact h.finishOp (hrel hfree)

theorem Inv.thread (h : Inv s) (c : Choice) {t : St} (ht : threadStep s c = some t) : Inv t := by
  unfold threadStep at ht
  cases hpc : s.pc with
  | loop =>
    rw [hpc] at ht
    cases ht
  | acquired =>
    rw [hpc] at ht
    dsimp only at ht
    split at ht
    · exact Option.some.inj ht ▸ h.acquiredTimedOut hpc
    · exact Option.some.inj ht ▸ h.acquiredInit hpc
  | sendStart =>
    rw [hpc] at ht
    have hsend := h.sendStart hpc c.room
    dsimp only at ht
    split at ht
    · next hs =>
      rw [if_pos hs] at hsend
      exact Option.some.inj ht ▸ hsend
    · next hs =>
      rw [if_neg hs] at hsend
      exact Option.some.inj ht ▸ hsend
  | refused =>
    rw [hpc] at ht
    exact Option.some.inj ht ▸ h.refused hpc c.room
  | handle m failed b =>
    rw [hpc] at ht
    cases failed with
    | true => exact Option.some.inj ht ▸ h.failEvHdlr hpc c
    | false => exact h.internalEvt hpc c ht
  | ending m b =>
    rw [hpc] at ht
    exact Option.some.inj ht ▸ h.ending hpc
  | recycle m cancelled b =>
    rw [hpc] at ht
    exact Option.some.inj ht ▸ h.recycle hpc c.room
  | abort fromOp =>
    rw [hpc] at ht
    exact Option.some.inj ht ▸ h.abort hpc c.room

/-- A step that is legal keeps the invariant. -/
theorem Inv.step (h : Inv s) {a : Act} (hlegal : Legal s a) {t : St} (ht : step s a = some t) :
    Inv t := by
  cases a with
  | acquire =>
    obtain ⟨⟨hpc, -, -, henq⟩, ht⟩ := Option.ite_none_right_eq_some.mp ht
    exact Option.some.inj ht ▸ h.acquire hpc henq
  | thread c => exact h.thread c ht
  | take m o b =>
    obtain ⟨⟨hpc, -⟩, ht⟩ := Option.ite_none_right_eq_some.mp ht
    exact h.takeMsg hpc o ht
  | tokenOp =>
    obtain ⟨⟨hpc, -, hused⟩, ht⟩ := Option.ite_none_right_eq_some.mp ht
    exact Option.some.inj ht ▸ h.tokenOp hpc hused
  | leave =>
    obtain ⟨⟨hpc, -⟩, ht⟩ := Option.ite_none_right_eq_some.mp ht
    obtain rfl := Option.some.inj ht
    have h' : Inv { s with leaving := true } := ⟨h.life, h.timer, h.start, h.hw, h.io⟩
    dsimp only
    split
    · next hcur => exact h'.unloadNotify hpc false hcur (hlegal hcur)
    · exact h'
  | drain m b =>
    obtain ⟨⟨hpc, -, hm⟩, ht⟩ := Option.ite_none_right_eq_some.mp ht
    exact Option.some.inj ht ▸ h.takeRecycle hpc hm m.cancelled
  | leaveReq =>
    obtain ⟨⟨hpc, -, henq⟩, ht⟩ := Option.ite_none_right_eq_some.mp ht
    exact Option.some.inj ht ▸ h.abortWaiting hpc false henq
  | timer room =>
    obtain ⟨-, ht⟩ := Option.ite_none_right_eq_some.mp ht
    exact Option.some.inj ht ▸ h.timerStep room
  | cancel => exact Option.some.inj ht ▸ h.cancel
  | stop => exact Option.some.inj ht ▸ h.stop
  | remove => exact Option.some.inj ht ▸ h.remove
  | otherMsg evt =>
    obtain ⟨hevt, ht⟩ := Option.ite_none_right_eq_some.mp ht
    obtain rfl := Option.some.inj ht
    refine h.append ?_ ?_ (by simp) <;> rcases hevt with rfl | rfl <;> simp
  | otherEnd => exact Option.some.inj ht ▸ h.otherEnd hlegal

end

/-! ## The law -/

/-- What holds of a scan request in every state. -/
structure Law (s : St) : Prop where
  once : s.completes ≤ 1
  notBefore : s.completes = 1 → ¬s.slot.status.enq ∧ (s.slot.cur → released s.slot)
  notWithout : ¬s.slot.status.enq → ¬s.slot.cur →
    s.completes + aborts (s.msgs ++ s.pc.hand) = 1
  timerInit : s.timer.inits ≤ 1 ∧ s.timer.releases ≤ s.timer.inits
  timerReleased : s.completes = 1 → s.timer.releases = s.timer.inits ∧ ¬s.timer.armed
  set : s.hw.sets = s.stStarted.toNat
  notUndone : s.completes = 0 → s.hw.undos = 0
  undone : s.completes = 1 → s.hw.undos ≤ s.hw.sets ∧ (¬s.ioLost → s.hw.undos = s.hw.sets)
  tx : s.slot.cur → s.stStarted → s.completes = 0 →
    s.hw.txPaused = !onBackop s.param ∧ s.hw.rxScan

/-- Once the scan has ended the request does not wait, and has given its token back. -/
theorem Life.ended {t : TokenSlot} {k : Kind} {acq : Bool} {n a : ℕ} (h : Life t k acq n a)
    (hn : n = 1) : ¬t.status.enq ∧ (t.cur → released t) := by
  have hp : ((t.status.enq || t.cur) && !released t) = false := by
    have honce := h.once
    cases k <;> simp only [pending, Bool.toNat_true] at honce <;> try omega
    all_goals
      refine Bool.eq_false_iff.mpr fun hp => ?_
      rw [hp, Bool.toNat_true] at honce
      omega
  constructor
  · intro he
    have hcur := (h.enq he).1
    rw [he, Bool.true_or, Bool.true_and, Bool.not_eq_false'] at hp
    exact hcur (h.rel hp).1
  · intro hc
    rwa [hc, Bool.or_true, Bool.true_and, Bool.not_eq_false'] at hp

/-- A request that neither waits nor holds the token is not to be ended by anybody. -/
theorem Life.not_pending {t : TokenSlot} {k : Kind} {acq : Bool} {n a : ℕ} (h : Life t k acq n a)
    (henq : ¬t.status.enq) (hcur : ¬t.cur) : pending t k = false := by
  have hk := h.kind
  cases k with
  | refused => exact absurd hk.1 hcur
  | ending => exact absurd hk.1 hcur
  | abort => exact absurd (hk.2.imp_right And.left) (not_or.mpr ⟨henq, hcur⟩)
  | _ => simp [pending, henq, hcur]

theorem Inv.timer_inits {s : St} (h : Inv s) :
    s.timer.inits ≤ 1 ∧ s.timer.releases ≤ s.timer.inits := by
  have honce := h.life.once
  by_cases hacq : s.stAcquire
  · obtain ⟨hinits, hrels⟩ := h.timer.ofAcq hacq
    omega
  · have hna := h.timer.notAcq hacq
    revert hna
    cases s.pc.kind <;> dsimp only <;> omega

theorem Inv.timer_released {s : St} (h : Inv s) (hc : s.completes = 1) :
    s.timer.releases = s.timer.inits := by
  by_cases hacq : s.stAcquire
  · obtain ⟨hinits, hrels⟩ := h.timer.ofAcq hacq
    rw [hinits, hrels, hc]
  · have hna := h.timer.notAcq hacq
    have hk := h.life.kind
    obtain ⟨-, hrel⟩ := h.life.ended hc
    revert hna hk
    cases s.pc.kind <;> intro hna hk
    -- while the request is being acquired its scan has not ended
    case acquired => exact absurd (hrel hk.1) hk.2.2.2
    case sendStart => exact absurd (hrel hk.1) hk.2.2.2
    all_goals exact hna.1

theorem Inv.law {s : St} (h : Inv s) : Law s where
  once := by
    have honce := h.life.once
    omega
  notBefore := h.life.ended
  notWithout henq hcur := by
    have honce := h.life.once
    rw [h.life.not_pending henq hcur] at honce
    simpa using honce
  timerInit := h.timer_inits
  timerReleased hc := by
    refine ⟨h.timer_released hc, fun harmed => ?_⟩
    have hzero := (h.timer.armed harmed).2
    omega
  set := h.hw.sets
  notUndone hc := by
    have hundos := h.hw.undos
    rwa [if_pos hc] at hundos
  undone hc := by
    have hundos := h.hw.undos
    rw [if_neg (by omega)] at hundos
    rw [hundos, h.hw.sets]
    cases hdf : s.stDfIo with
    | false => simp
    | true => simp [h.io.dfIo hdf]
  tx := h.hw.tx

/-- In every run of legal steps the law holds in every state reached. -/
theorem cmdScan_run (i : ReqSlot) (r : ScanReq) (opch : List ℕ) {as : List Act} {s : St}
    (hlegal : Guarded step Legal (rtwPhlCmdScanRequest i r opch) as)
    (hs : run step (rtwPhlCmdScanRequest i r opch) as = some s) : Law s :=
  Inv.law (run_preserves Inv (fun _ _ _ h hok hs => h.step hok hs)
    (inv_rtwPhlCmdScanRequest i r opch) hlegal hs)

theorem cmdScanEnd_completes (s : St) : (cmdScanEnd s).completes = s.completes + 1 := by
  rw [cmdScanEnd_eq]

/-- Where the dispatcher is stopped, the abort handler ends the scan at once. -/
theorem cmdAbortNotify_stopped {s : St} (hacq : s.stAcquire) (hstopped : ¬s.slot.started)
    (abort room : Bool) : (cmdAbortNotify s abort room).completes = s.completes + 1 := by
  have hsend : phlDispEngSendMsg { s with result := some .cancel } room .scanEnd .abort abort =
      ({ s with result := some .cancel }, .unexpectedError) := by
    unfold phlDispEngSendMsg
    rw [if_pos (by simpa using hstopped)]
  unfold cmdAbortNotify
  rw [if_pos hacq, hsend]
  exact cmdScanEnd_completes _

/-- After a step that is not legal the law fails, at the latest when the abort handler runs: the
condition of `cmdScan_run` leaves out nothing else. -/
theorem not_law_of_illegal {s t : St} {a : Act} (h : Inv s) (hs : step s a = some t)
    (hillegal : ¬Legal s a) : ∃ as, ∀ u, run step t as = some u → ¬Law u := by
  cases a with
  | leave =>
    simp only [Legal, Classical.not_imp, not_not] at hillegal
    obtain ⟨hcur, hrel⟩ := hillegal
    obtain ⟨⟨hpc, -, hstopped⟩, hs⟩ := Option.ite_none_right_eq_some.mp hs
    obtain rfl := Option.some.inj hs
    obtain ⟨hl, -, -, -⟩ := h.at hpc
    obtain ⟨hacq, -⟩ := hl.kind hcur
    have hone : s.completes = 1 := by
      have honce := hl.once
      have hnone : ¬0 < aborts (s.msgs ++ Pc.loop.hand) := fun ha => (hl.abortMsg ha).2 hcur
      rw [show pending s.slot Pc.loop.kind = false by simp [Pc.kind, pending, hrel]] at honce
      simp only [Bool.toNat_false] at honce
      omega
    refine ⟨[.thread ⟨false, false, false⟩], fun u hu hlaw => ?_⟩
    dsimp only at hu
    rw [if_pos hcur, run_cons] at hu
    obtain ⟨v, hv, hu⟩ := Option.bind_eq_some_iff.mp hu
    obtain rfl := Option.some.inj hv
    obtain rfl := Option.some.inj hu
    -- the message cannot be sent, so the scan ends a second time
    have htwice : (phlCmdScanReqAbort (Cmd.unloadNotify { s with leaving := true } false) false
        false).completes = s.completes + 1 :=
      cmdAbortNotify_stopped (s := Cmd.unloadNotify { s with leaving := true } false) hacq
        hstopped true false
    have honce := hlaw.once
    rw [htwice] at honce
    omega
  | otherEnd =>
    simp only [Legal, not_not] at hillegal
    obtain ⟨hcur, hstarted, hzero⟩ := hillegal
    obtain rfl := Option.some.inj hs
    refine ⟨[], fun u hu hlaw => ?_⟩
    obtain rfl := Option.some.inj hu
    exact absurd (hlaw.tx hcur hstarted hzero).2 Bool.false_ne_true
  | acquire => exact absurd trivial hillegal
  | thread c => exact absurd trivial hillegal
  | take m o b => exact absurd trivial hillegal
  | tokenOp => exact absurd trivial hillegal
  | drain m b => exact absurd trivial hillegal
  | leaveReq => exact absurd trivial hillegal
  | timer room => exact absurd trivial hillegal
  | cancel => exact absurd trivial hillegal
  | stop => exact absurd trivial hillegal
  | remove => exact absurd trivial hillegal
  | otherMsg evt => exact absurd trivial hillegal

instance instDecidableScanLegal (s : St) : (a : Act) → Decidable (Legal s a)
  | .leave => inferInstanceAs (Decidable (s.slot.cur → ¬released s.slot))
  | .otherEnd => inferInstanceAs (Decidable ¬(s.slot.cur ∧ s.stStarted ∧ s.completes = 0))
  | .acquire | .thread _ | .take _ _ _ | .tokenOp | .drain _ _ | .leaveReq | .timer _ | .cancel
  | .stop | .remove | .otherMsg _ => isTrue trivial

/-- A request to scan no channel. -/
def emptyScan : ScanReq := ⟨0, [], .none, 0, 0, 0, by simp⟩

def plainMsg (evt : Evt) : ScanMsg := ⟨evt, false, true, .none⟩

/-- The thread takes a message, calls the handler of the request and recycles the message. -/
def handleMsg (evt : Evt) : List Act :=
  let c : Choice := ⟨false, true, false⟩
  [.take (plainMsg evt) .passed false, .thread c, .thread c]

/-- A scan up to the end of the message handler for `MSG_EVT_SCAN_END`. -/
def scanToEnd : List Act :=
  let c : Choice := ⟨false, true, false⟩
  [.acquire, .thread c, .thread c] ++ handleMsg .scanStart ++ handleMsg .swchStart ++
    handleMsg .scanEnd ++ [.thread c]

/-- The scan ends, and the token is taken from the request. -/
theorem cmdScan_run_emptyScan :
    ∃ s, run step (rtwPhlCmdScanRequest 0 emptyScan []) (scanToEnd ++ [.tokenOp]) = some s ∧
      Law s ∧ s.completes = 1 ∧ s.slot.cur = false :=
  ⟨_, rfl,
    cmdScan_run 0 emptyScan []
      (show Guarded step Legal (rtwPhlCmdScanRequest 0 emptyScan [])
        (scanToEnd ++ [.tokenOp]) by decide) rfl,
    rfl, rfl⟩

/-- The dispatcher is stopped after the scan has ended, and its thread leaves before it has taken
the token. -/
def leaveEarly : List Act := scanToEnd ++ [.stop, .leave, .thread ⟨false, true, false⟩]

/-- `scan_complete` is called twice, and the timer is released twice. -/
theorem leaveEarly_twice :
    ∃ s, run step (rtwPhlCmdScanRequest 0 emptyScan []) leaveEarly = some s ∧ s.completes = 2 ∧
      s.timer.releases = 2 ∧ s.timer.inits = 1 ∧ ¬Law s :=
  ⟨_, rfl, rfl, rfl, rfl, fun h => absurd h.once (by decide)⟩

end Rtl88x2cu.Scan.Cmd
