import Mathlib.Algebra.Order.Ring.Nat
import Mathlib.Data.List.Count
import Rtl88x2cu.Scan.CmdScan

/-!
# The invariant of a scan request

The right to call `scan_complete` is in one place at a time: with the request while it waits or
holds the token, with the thread while it ends the request, with the message of an abort, or it has
been used. `Life` says so. `TimerOk`, `StartOk`, `HwOk` and `IoOk` are what follows for the timer,
the messages, the hardware and the flags, and `Inv` is all of it.
-/

namespace Rtl88x2cu.Scan.Cmd

open Dispatcher (TokenSlot ReqSlot RtwPhlStatus OpType)

/-! ## The invariant -/

/-- What the thread is doing with the request. -/
inductive Kind where
  | idle
  | acquired
  | sendStart
  | refused
  | handle
  | ending
  | abort

def Pc.kind : Pc → Kind
  | .loop | .recycle _ _ _ => .idle
  | .acquired => .acquired
  | .sendStart => .sendStart
  | .refused => .refused
  | .handle _ _ _ => .handle
  | .ending _ _ => .ending
  | .abort _ => .abort

/-- The message in the hand of the thread. -/
def Pc.hand : Pc → List ScanMsg
  | .handle m _ _ | .ending m _ | .recycle m _ _ => [m]
  | _ => []

/-- The message that the handler of the request is about to get. -/
def Pc.handled : Pc → List ScanMsg
  | .handle m _ _ => [m]
  | _ => []

/-- The message in hand says that there is no I/O. -/
def Pc.cannotIo : Pc → Bool
  | .handle _ _ b | .ending _ b | .recycle _ _ b => b
  | _ => false

/-- The number of abort messages. -/
def aborts (msgs : List ScanMsg) : ℕ := msgs.countP fun m => m.completion = .abort

/-- The number of `MSG_EVT_SCAN_START` messages. -/
def starts (msgs : List ScanMsg) : ℕ := msgs.countP fun m => m.evt = .scanStart

/-- The token of the request has been released, but not yet taken from it. -/
def released (t : TokenSlot) : Bool :=
  t.freeReqInfo.used && decide (t.freeReqInfo.type = some .freeCmdReq)

/-- The request or the thread has yet to end the scan. -/
def pending (t : TokenSlot) : Kind → Bool
  | .refused | .ending | .abort => true
  | _ => (t.status.enq || t.cur) && !released t

/-- What the thread relies on while it is at a place. -/
def Kind.Ok (t : TokenSlot) (acq : Bool) : Kind → Prop
  | .idle => t.cur → acq ∧ t.status.run
  | .acquired | .sendStart | .refused => t.cur ∧ ¬acq ∧ t.status.run ∧ ¬released t
  | .handle => t.cur ∧ acq ∧ t.status.run ∧ ¬released t
  | .ending => t.cur ∧ acq ∧ t.status.run ∧ released t
  | .abort => ¬released t ∧ (t.status.enq ∨ t.cur ∧ acq)

/-- One call of `scan_complete` has been made or is still to be made. -/
structure Life (t : TokenSlot) (k : Kind) (acq : Bool) (completes aborts : ℕ) : Prop where
  once : completes + (pending t k).toNat + aborts = 1
  runCur : t.status.run → t.cur
  permit : t.status.lastPermit → t.cur ∧ ¬t.status.run
  enq : t.status.enq → ¬t.cur ∧ ¬acq
  rel : released t → t.cur ∧ t.status.cancel
  kind : k.Ok t acq
  abortMsg : 0 < aborts → acq ∧ ¬t.cur

/-- The timer is initialised when the token is acquired and released when the scan ends. -/
structure TimerOk (enq : Bool) (k : Kind) (acq started : Bool) (completes : ℕ) (tm : Timer) :
    Prop where
  ofEnq : enq → tm.inits = 0
  ofAcq : acq → tm.inits = 1 ∧ tm.releases = completes
  notAcq : ¬acq → match k with
    | .acquired => tm.inits = 0 ∧ tm.releases = 0
    | .sendStart => tm.inits = 1 ∧ tm.releases = 0
    | _ => tm.releases = tm.inits ∧ tm.inits ≤ 1
  armed : tm.armed → started ∧ completes = 0

/-- The scan is started once, and only then goes to a channel. -/
structure StartOk (msgs handled : List ScanMsg) (acq started : Bool)
    (scanCh : Option PhlScanChannel) : Prop where
  startedAcq : started → acq
  ofScanCh : scanCh ≠ none → started
  swch : ∀ m ∈ msgs ++ handled, m.evt = .swchStart → started
  once : starts (msgs ++ handled) + started.toNat ≤ 1
  notAcq : ¬acq → starts (msgs ++ handled) = 0

/-- The hardware is set when the scan is started and undone when it ends. -/
structure HwOk (cur started dfIo : Bool) (completes : ℕ) (hw : Hw) (p : ScanParam) : Prop where
  sets : hw.sets = started.toNat
  undos : hw.undos = if completes = 0 then 0 else (started && !dfIo).toNat
  tx : cur → started → completes = 0 → hw.txPaused = !onBackop p ∧ hw.rxScan

/-- The flags that stand for a loss of I/O. -/
structure IoOk (dfIo cannotIo disprStarted removed ioLost : Bool) : Prop where
  dfIo : dfIo → ioLost
  cannotIo : cannotIo → ioLost
  stopped : ¬disprStarted → ioLost
  removed : removed → ioLost

/-- The invariant. -/
structure Inv (s : St) : Prop where
  life : Life s.slot s.pc.kind s.stAcquire s.completes (aborts (s.msgs ++ s.pc.hand))
  timer : TimerOk s.slot.status.enq s.pc.kind s.stAcquire s.stStarted s.completes s.timer
  start : StartOk s.msgs s.pc.handled s.stAcquire s.stStarted s.param.scanCh
  hw : HwOk s.slot.cur s.stStarted s.stDfIo s.completes s.hw s.param
  io : IoOk s.stDfIo s.pc.cannotIo s.slot.started s.removed s.ioLost

theorem inv_rtwPhlCmdScanRequest (i : ReqSlot) (r : ScanReq) (opch : List ℕ) :
    Inv (rtwPhlCmdScanRequest i r opch) := by
  have hch : (reqInit r opch).scanCh = none := by
    unfold reqInit updateChparam
    dsimp only
    split
    · split
      · split <;> rfl
      · rfl
    · rfl
  constructor <;> constructor <;>
    simp [rtwPhlCmdScanRequest, pending, released, aborts, starts, Pc.kind, Pc.hand, Pc.handled,
      Pc.cannotIo, Kind.Ok, hch]

/-! ## Life under the operations on the token -/

section

variable {t : TokenSlot} {k : Kind} {acq : Bool} {n a : ℕ}

theorem pending_congr {t' : TokenSlot} (henq : t'.status.enq = t.status.enq)
    (hcur : t'.cur = t.cur) (hrel : released t' = released t) : pending t' k = pending t k := by
  cases k <;> simp only [pending, henq, hcur, hrel]

theorem Kind.Ok.congr {t' : TokenSlot} (h : k.Ok t acq) (henq : t'.status.enq = t.status.enq)
    (hrun : t'.status.run = t.status.run) (hcur : t'.cur = t.cur)
    (hrel : released t' = released t) : k.Ok t' acq := by
  cases k <;> simp only [Kind.Ok, henq, hrun, hcur, hrel] at h ⊢ <;> exact h

/-- A change of the flags that says nothing about the place of the request. -/
theorem Life.congr {t' : TokenSlot} (h : Life t k acq n a)
    (henq : t'.status.enq = t.status.enq) (hrun : t'.status.run = t.status.run)
    (hpermit : t'.status.lastPermit = t.status.lastPermit)
    (hcancel : t.status.cancel → t'.status.cancel) (hcur : t'.cur = t.cur)
    (hrel : released t' = released t) : Life t' k acq n a where
  once := by rw [pending_congr henq hcur hrel]; exact h.once
  runCur := by rw [hrun, hcur]; exact h.runCur
  permit := by rw [hrun, hpermit, hcur]; exact h.permit
  enq := by rw [henq, hcur]; exact h.enq
  rel hr := by
    obtain ⟨h1, h2⟩ := h.rel (hrel ▸ hr)
    exact ⟨hcur ▸ h1, hcancel h2⟩
  kind := h.kind.congr henq hrun hcur hrel
  abortMsg := by rw [hcur]; exact h.abortMsg

theorem Life.stopPrior (h : Life t k acq n a) : Life t.stopPrior k acq n a := by
  have hst : t.stopPrior.status.enq = t.status.enq ∧ t.stopPrior.status.run = t.status.run ∧
      t.stopPrior.status.lastPermit = t.status.lastPermit ∧
      (t.status.cancel → t.stopPrior.status.cancel) := by
    unfold TokenSlot.stopPrior
    by_cases h : t.status = {} <;> simp [h]
  exact h.congr hst.1 hst.2.1 hst.2.2.1 hst.2.2.2 rfl rfl

/-- `dispr_cancel_token_req` by another thread. -/
theorem Life.cancelTokenReq (h : Life t k acq n a) : Life t.cancelTokenReq.1 k acq n a := by
  unfold TokenSlot.cancelTokenReq TokenSlot.enqueueFree
  split
  · exact h
  split
  · exact h
  dsimp only
  split
  · exact h.congr rfl rfl rfl (fun _ => rfl) rfl rfl
  · -- the op node is free, so the token has not been released
    next hused =>
    exact h.congr rfl rfl rfl (fun _ => rfl) rfl (by simp [released, hused])

/-- What `dispr_free_token` does when it succeeds. -/
theorem freeToken_success {t' : TokenSlot} (h : t.freeToken = (t', .success)) :
    t.freeReqInfo.used = false ∧ t' = { t with
      status := { t.status with cancel := true }
      freeReqInfo := ⟨true, some .freeCmdReq, t.idx⟩ } := by
  unfold TokenSlot.freeToken TokenSlot.enqueueFree at h
  split at h
  · cases h
  split at h
  · cases h
  dsimp only at h
  split at h
  · cases h
  · next hused =>
    simp only [Prod.mk.injEq, and_true] at h
    exact ⟨by simpa using hused, h.symm⟩

/-- `dispr_free_token` when it fails. -/
theorem Life.freeToken_failure (h : Life t k acq n a) (hs : t.freeToken.2 ≠ .success) :
    Life t.freeToken.1 k acq n a := by
  unfold TokenSlot.freeToken TokenSlot.enqueueFree at hs ⊢
  split
  · exact h
  split
  · exact h
  next h1 h2 =>
  rw [if_neg h1, if_neg h2] at hs
  dsimp only at hs ⊢
  split
  · exact h.congr rfl rfl rfl (fun _ => rfl) rfl rfl
  · next hused =>
    rw [if_neg hused] at hs
    exact absurd rfl hs

/-- The handler of `MSG_EVT_SCAN_END` releases the token. -/
theorem Life.release (h : Life t .handle acq n a) {t' : TokenSlot}
    (ht : t.freeToken = (t', .success)) : Life t' .ending acq n a := by
  obtain ⟨-, rfl⟩ := freeToken_success ht
  obtain ⟨hcur, hacq, hrun, hrel⟩ := h.kind
  have honce := h.once
  simp only [pending, hcur, hrel, Bool.or_true, Bool.not_false, Bool.and_true] at honce
  exact ⟨honce, h.runCur, h.permit, h.enq, fun _ => ⟨hcur, rfl⟩, ⟨hcur, hacq, hrun, rfl⟩,
    h.abortMsg⟩

/-! ### The places of the thread -/

/-- The request is acquired. -/
theorem Life.take (h : Life t .idle acq n a) (henq : t.status.enq) :
    Life t.take .acquired acq n a := by
  obtain ⟨hcur, hacq⟩ := h.enq henq
  have hrel : ¬released t := fun hr => hcur (h.rel hr).1
  have honce := h.once
  simp only [pending, henq, hrel, Bool.true_or, Bool.not_false, Bool.and_true] at honce
  have hrel' : released t.take = released t := rfl
  refine ⟨?_, fun _ => rfl, fun hp => absurd (h.permit hp).1 hcur, nofun,
    fun hr => absurd hr hrel, ⟨rfl, hacq, rfl, hrel⟩, fun ha => absurd (h.abortMsg ha).1 hacq⟩
  have hp : pending t.take .acquired = true := by
    simp only [pending, hrel', hrel]
    rfl
  rw [hp]
  exact honce

/-- The kinds in which the token is held and not released. -/
theorem Life.of_kind {k' : Kind} {acq' : Bool} (h : Life t k acq n a)
    (hpending : pending t k' = pending t k) (hkind : k'.Ok t acq') (hacq : acq → acq')
    (henq : t.status.enq → ¬acq') : Life t k' acq' n a where
  once := by rw [hpending]; exact h.once
  runCur := h.runCur
  permit := h.permit
  enq he := ⟨(h.enq he).1, henq he⟩
  rel := h.rel
  kind := hkind
  abortMsg ha := ⟨hacq (h.abortMsg ha).1, (h.abortMsg ha).2⟩

/-- The thread ends the scan: the call that was pending is made. -/
theorem Life.complete (h : Life t .ending acq n a) : Life t .idle acq (n + 1) a := by
  obtain ⟨hcur, hacq, hrun, hrel⟩ := h.kind
  have honce := h.once
  refine ⟨?_, h.runCur, h.permit, h.enq, h.rel, fun _ => ⟨hacq, hrun⟩, h.abortMsg⟩
  simp only [pending, hrel, Bool.not_true, Bool.and_false, Bool.toNat_true, Bool.toNat_false]
    at honce ⊢
  omega

/-- An abort message is completed. -/
theorem Life.completeAbort (h : Life t .idle acq n (a + 1)) : Life t .idle acq (n + 1) a := by
  have honce := h.once
  exact ⟨by omega, h.runCur, h.permit, h.enq, h.rel, h.kind, fun ha => h.abortMsg (by omega)⟩

/-- A request that is gone. -/
theorem life_gone {t' : TokenSlot} (honce : n + a = 1) (hstatus : t'.status = {})
    (hcur : t'.cur = false) (hrel : ¬released t') (ha : 0 < a → acq) :
    Life t' .idle acq n a := by
  refine ⟨?_, ?_, ?_, ?_, fun hr => absurd hr hrel, ?_, fun h => ⟨ha h, by simp [hcur]⟩⟩
  · simpa [pending, hstatus, hcur] using honce
  all_goals simp [Kind.Ok, hstatus, hcur]

/-- The thread calls the handler of the request. -/
theorem Life.deliver (h : Life t .idle acq n a) (hactive : t.active) :
    Life t .handle acq n a := by
  simp only [TokenSlot.active, Bool.and_eq_true, Bool.not_eq_true'] at hactive
  obtain ⟨⟨hcur, hrun⟩, hcancel⟩ := hactive
  have hrel : ¬released t := fun hr => by simp [(h.rel hr).2] at hcancel
  exact h.of_kind rfl ⟨hcur, (h.kind hcur).1, hrun, hrel⟩ id fun he => (h.enq he).2

/-- `deregister_cur_cmd_req` with a notification, of a request whose token is not released. -/
theorem Life.unloadNotify (h : Life t .idle acq n a) (hcur : t.cur) (hrel : ¬released t) :
    Life (t.unload.setLastPermit true) .abort acq n a := by
  have honce := h.once
  simp only [pending, hcur, hrel, Bool.or_true, Bool.not_false, Bool.and_true] at honce
  exact ⟨honce, nofun, fun _ => ⟨hcur, nofun⟩, h.enq, fun hr => absurd hr hrel,
    ⟨hrel, Or.inr ⟨hcur, (h.kind hcur).1⟩⟩, h.abortMsg⟩

/-- The abort of a request that waits. -/
theorem Life.abortWaiting (h : Life t .idle acq n a) (henq : t.status.enq) :
    Life t .abort acq n a := by
  have hrel : ¬released t := fun hr => (h.enq henq).1 (h.rel hr).1
  exact h.of_kind (by simp [pending, henq, hrel]) ⟨hrel, Or.inl henq⟩ id fun he => (h.enq he).2

end

/-! ## Counting messages -/

theorem aborts_append (l l' : List ScanMsg) : aborts (l ++ l') = aborts l + aborts l' :=
  List.countP_append

theorem starts_append (l l' : List ScanMsg) : starts (l ++ l') = starts l + starts l' :=
  List.countP_append

theorem aborts_erase {l : List ScanMsg} {m : ScanMsg} (h : m ∈ l) :
    aborts (l.erase m ++ [m]) = aborts l :=
  ((List.perm_append_singleton m (l.erase m)).trans (List.perm_cons_erase h).symm).countP_eq _

theorem starts_erase {l : List ScanMsg} {m : ScanMsg} (h : m ∈ l) :
    starts (l.erase m ++ [m]) = starts l :=
  ((List.perm_append_singleton m (l.erase m)).trans (List.perm_cons_erase h).symm).countP_eq _

theorem aborts_map_cancel (l : List ScanMsg) :
    aborts (l.map fun m => { m with cancelled := true, ownerReq := false }) = aborts l :=
  List.countP_map

theorem starts_map_cancel (l : List ScanMsg) :
    starts (l.map fun m => { m with cancelled := true, ownerReq := false }) = starts l :=
  List.countP_map

/-! ## Sending -/

/-- What sending a message does: nothing, or it is queued. -/
theorem phlDispEngSendMsg_cases {s : St} (h : Inv s) (room : Bool) (evt : Evt) (c : Completion)
    (b : Bool) :
    (phlDispEngSendMsg s room evt c b).2 ≠ .success ∧ (phlDispEngSendMsg s room evt c b).1 = s ∨
      phlDispEngSendMsg s room evt c b =
        ({ s with msgs := s.msgs ++ [⟨evt, false, s.slot.active, c⟩] }, .success) := by
  have hrefuse : (s.slot.active && s.slot.status.lastPermit && !b) = false := by
    by_contra hne
    simp only [Bool.not_eq_false, Bool.and_eq_true, TokenSlot.active] at hne
    exact (h.life.permit hne.1.2).2 hne.1.1.1.2
  unfold phlDispEngSendMsg
  split
  · exact Or.inl ⟨by simp, rfl⟩
  split
  · exact Or.inl ⟨by simp, rfl⟩
  split
  · exact Or.inl ⟨by simp, rfl⟩
  · rw [hrefuse, if_neg Bool.false_ne_true]
    exact Or.inr rfl

theorem StartOk.append {l r : List ScanMsg} {acq started : Bool} {ch : Option PhlScanChannel}
    (h : StartOk l r acq started ch) {m : ScanMsg} (hstart : m.evt ≠ .scanStart)
    (hswch : m.evt = .swchStart → started) : StartOk (l ++ [m]) r acq started ch := by
  have hs : starts (l ++ [m] ++ r) = starts (l ++ r) := by
    simp [starts, hstart]
  refine ⟨h.startedAcq, h.ofScanCh, ?_, ?_, ?_⟩
  · intro m' hm' he
    simp only [List.mem_append, List.mem_singleton] at hm'
    rcases hm' with (hm' | rfl) | hm'
    · exact h.swch m' (List.mem_append_left _ hm') he
    · exact hswch he
    · exact h.swch m' (List.mem_append_right _ hm') he
  · rw [hs]; exact h.once
  · rw [hs]; exact h.notAcq

/-- A message of the dispatcher whose sender needs nothing from it. -/
theorem Inv.append {s : St} (h : Inv s) {m : ScanMsg} (hstart : m.evt ≠ .scanStart)
    (hswch : m.evt = .swchStart → s.stStarted) (habort : m.completion ≠ .abort) :
    Inv { s with msgs := s.msgs ++ [m] } where
  life := by
    have ha : aborts (s.msgs ++ [m] ++ s.pc.hand) = aborts (s.msgs ++ s.pc.hand) := by
      simp [aborts, habort]
    dsimp only
    rw [ha]
    exact h.life
  timer := h.timer
  start := h.start.append hstart hswch
  hw := h.hw
  io := h.io

theorem Inv.send {s : St} (h : Inv s) (room : Bool) {evt : Evt} {c : Completion} (b : Bool)
    (hstart : evt ≠ .scanStart) (hswch : evt = .swchStart → s.stStarted) (habort : c ≠ .abort) :
    Inv (phlDispEngSendMsg s room evt c b).1 := by
  rcases phlDispEngSendMsg_cases h room evt c b with ⟨-, hs⟩ | hs <;> rw [hs]
  · exact h
  · exact h.append hstart hswch habort

/-- Where the thread goes on afterwards does not matter to the sending. -/
theorem phlDispEngSendMsg_pc (s : St) (room : Bool) (evt : Evt) (c : Completion) (b : Bool)
    (pc : Pc) (hc : c ≠ .abort) :
    { (phlDispEngSendMsg s room evt c b).1 with pc := pc } =
      (phlDispEngSendMsg { s with pc := pc } room evt c b).1 := by
  unfold phlDispEngSendMsg
  rw [if_neg hc]
  dsimp only
  split_ifs <;> rfl

/-! ## Steps of other threads -/

/-- The thread does not leave while the token is released and not yet taken, and no other scan ends
while this one is started. -/
def Legal (s : St) : Act → Prop
  | .leave => s.slot.cur → ¬released s.slot
  | .otherEnd => ¬(s.slot.cur ∧ s.stStarted ∧ s.completes = 0)
  | _ => True

theorem Inv.timerStep {s : St} (h : Inv s) (room : Bool) :
    Inv (cmdScanTimer { s with timer := { s.timer with armed := false } } room) := by
  have h' : Inv { s with timer := { s.timer with armed := false } } :=
    ⟨h.life, ⟨h.timer.ofEnq, h.timer.ofAcq, h.timer.notAcq, nofun⟩, h.start, h.hw, h.io⟩
  exact h'.send room false (by simp) (by simp) (by simp)

theorem cancelTokenReq_frame (t : TokenSlot) :
    t.cancelTokenReq.1.status.enq = t.status.enq ∧ t.cancelTokenReq.1.cur = t.cur ∧
      t.cancelTokenReq.1.started = t.started := by
  unfold TokenSlot.cancelTokenReq TokenSlot.enqueueFree
  dsimp only
  split_ifs <;> exact ⟨rfl, rfl, rfl⟩

theorem freeToken_frame (t : TokenSlot) :
    t.freeToken.1.status.enq = t.status.enq ∧ t.freeToken.1.cur = t.cur ∧
      t.freeToken.1.started = t.started := by
  unfold TokenSlot.freeToken TokenSlot.enqueueFree
  dsimp only
  split_ifs <;> exact ⟨rfl, rfl, rfl⟩

/-- A change of the token that the thread need not know about. -/
theorem Inv.onSlot {s : St} (h : Inv s) {t : TokenSlot}
    (hlife : Life t s.pc.kind s.stAcquire s.completes (aborts (s.msgs ++ s.pc.hand)))
    (hframe : t.status.enq = s.slot.status.enq ∧ t.cur = s.slot.cur ∧
      t.started = s.slot.started) : Inv { s with slot := t } := by
  obtain ⟨henq, hcur, hstarted⟩ := hframe
  refine ⟨hlife, ?_, h.start, ?_, ?_⟩ <;> dsimp only
  · rw [henq]; exact h.timer
  · rw [hcur]; exact h.hw
  · rw [hstarted]; exact h.io

theorem Inv.cancel {s : St} (h : Inv s) : Inv { s with slot := s.slot.cancelTokenReq.1 } :=
  h.onSlot h.life.cancelTokenReq (cancelTokenReq_frame s.slot)

theorem Inv.stop {s : St} (h : Inv s) :
    Inv { s with slot := s.slot.stopPrior, ioLost := true } := by
  have henq : s.slot.stopPrior.status.enq = s.slot.status.enq := by
    unfold TokenSlot.stopPrior
    dsimp only
    split <;> rfl
  refine ⟨h.life.stopPrior, ?_, h.start, h.hw, ⟨fun _ => rfl, fun _ => rfl, fun _ => rfl,
    fun _ => rfl⟩⟩
  dsimp only
  rw [henq]
  exact h.timer

theorem Inv.remove {s : St} (h : Inv s) : Inv { s with removed := true, ioLost := true } :=
  ⟨h.life, h.timer, h.start, h.hw, ⟨fun _ => rfl, fun _ => rfl, fun _ => rfl, fun _ => rfl⟩⟩

/-- Another scan ends, while this one is not on. -/
theorem Inv.otherEnd {s : St} (h : Inv s)
    (hlegal : ¬(s.slot.cur ∧ s.stStarted ∧ s.completes = 0)) :
    Inv { s with hw := { s.hw with rxScan := false, txPaused := false } } :=
  ⟨h.life, h.timer, h.start,
    ⟨h.hw.sets, h.hw.undos, fun h1 h2 h3 => absurd ⟨h1, h2, h3⟩ hlegal⟩, h.io⟩

/-! ## The end of the scan -/

theorem cmdScanEnd_eq (s : St) :
    cmdScanEnd s = { s with
      timer := { s.timer with armed := false, releases := s.timer.releases + 1 }
      completes := s.completes + 1
      hw := (cmdScanEnd s).hw } := by
  unfold cmdScanEnd
  dsimp only
  split <;> rfl

/-- The hardware is undone when the scan ends, if it was set and there is I/O. -/
theorem HwOk.scanEnd {s : St} {cur cur' dfIo : Bool} {p p' : ScanParam}
    (h : HwOk cur s.stStarted dfIo s.completes s.hw p) (hn : s.completes = 0) :
    HwOk cur' s.stStarted s.stDfIo (s.completes + 1) (cmdScanEnd s).hw p' := by
  have hundos := h.undos
  rw [if_pos hn] at hundos
  refine ⟨?_, ?_, fun _ _ hc => absurd hc (Nat.succ_ne_zero _)⟩
  · rw [← h.sets]
    unfold cmdScanEnd
    dsimp only
    split <;> rfl
  · rw [if_neg (Nat.succ_ne_zero _)]
    unfold cmdScanEnd
    dsimp only
    cases s.stStarted && !s.stDfIo <;> simp [hundos]

theorem TimerOk.scanEnd {enq enq' acq started : Bool} {k k' : Kind} {n : ℕ} {tm : Timer}
    (h : TimerOk enq k acq started n tm) (henq : ¬enq') (hacq : acq) :
    TimerOk enq' k' acq started (n + 1)
      { tm with armed := false, releases := tm.releases + 1 } where
  ofEnq he := absurd he henq
  ofAcq ha := by
    obtain ⟨h1, h2⟩ := h.ofAcq ha
    exact ⟨h1, by rw [h2]⟩
  notAcq hna := absurd hacq hna
  armed := nofun

/-- Once the token is acquired the timer does not depend on the place of the thread. -/
theorem TimerOk.of_acq {enq enq' acq started : Bool} {k k' : Kind} {n : ℕ} {tm : Timer}
    (h : TimerOk enq k acq started n tm) (henq : ¬enq') (hacq : acq) :
    TimerOk enq' k' acq started n tm where
  ofEnq he := absurd he henq
  ofAcq := h.ofAcq
  notAcq hna := absurd hacq hna
  armed := h.armed

theorem StartOk.mono {l l' r r' : List ScanMsg} {acq started : Bool} {ch : Option PhlScanChannel}
    (h : StartOk l r acq started ch) (hmem : ∀ m ∈ l' ++ r', m ∈ l ++ r)
    (hle : starts (l' ++ r') ≤ starts (l ++ r)) : StartOk l' r' acq started ch where
  startedAcq := h.startedAcq
  ofScanCh := h.ofScanCh
  swch m hm := h.swch m (hmem m hm)
  once := le_trans (Nat.add_le_add_right hle _) h.once
  notAcq hna := Nat.le_zero.mp (h.notAcq hna ▸ hle)

/-- The message in the hand of the handler is done with. -/
theorem StartOk.handled {l r : List ScanMsg} {acq started : Bool} {ch : Option PhlScanChannel}
    (h : StartOk l r acq started ch) : StartOk l [] acq started ch :=
  h.mono (fun m hm => List.mem_append_left _ (by simpa using hm))
    (by rw [List.append_nil, starts_append]; omega)

/-- While the right to complete is with the request or the thread, it has not been used. -/
theorem Life.completes_eq_zero {t : TokenSlot} {k : Kind} {acq : Bool} {n a : ℕ}
    (h : Life t k acq n a) (hp : pending t k = true) : n = 0 := by
  have honce := h.once
  rw [hp, Bool.toNat_true] at honce
  omega

/-! ## The handler of the request -/

theorem selectChnl_channel {p p' : ScanParam} {c : PhlScanChannel}
    (h : selectChnl p = some (.channel c p')) : p'.scanCh = some c := by
  unfold selectChnl at h
  obtain ⟨q, -, hq⟩ := Option.map_eq_some_iff.mp h
  unfold selectFront at hq
  split at hq
  · cases hq
  · split at hq
    · cases hq
    · cases hq
      rfl

section

variable {s : St} {m : ScanMsg} {failed b : Bool}

/-- What the invariant says before the handler. -/
theorem Inv.ofHandle (h : Inv s) (hpc : s.pc = .handle m failed b) :
    s.stAcquire ∧ ¬s.slot.status.enq ∧ s.completes = 0 ∧
      Life s.slot .handle s.stAcquire s.completes (aborts (s.msgs ++ [m])) := by
  have hl := h.life
  rw [hpc] at hl
  obtain ⟨hcur, hacq, -, hrel⟩ := hl.kind
  exact ⟨hacq, fun he => (hl.enq he).2 hacq,
    hl.completes_eq_zero (by simp [Pc.kind, pending, hcur, hrel]), hl⟩

/-- The handler changes the hardware, the timer and the channel, and is done with the message. -/
theorem Inv.handled (h : Inv s) (hpc : s.pc = .handle m failed b) {t : St}
    (hslot : t.slot = s.slot) (hmsgs : t.msgs = s.msgs) (htpc : t.pc = .recycle m false b)
    (hacq : t.stAcquire = s.stAcquire) (hn : t.completes = s.completes)
    (hdfIo : t.stDfIo = s.stDfIo) (hio : t.ioLost = s.ioLost) (hrem : t.removed = s.removed)
    (hinits : t.timer.inits = s.timer.inits) (hrels : t.timer.releases = s.timer.releases)
    (harmed : t.timer.armed → t.stStarted) (hstart : StartOk s.msgs [] s.stAcquire t.stStarted
      t.param.scanCh) (hhw : HwOk s.slot.cur t.stStarted s.stDfIo 0 t.hw t.param) : Inv t := by
  obtain ⟨ha, henq, hzero, hlife⟩ := h.ofHandle hpc
  obtain ⟨hcur, -, hrun, -⟩ := hlife.kind
  refine ⟨?_, ?_, ?_, ?_, ?_⟩
  · rw [hslot, hmsgs, htpc, hacq, hn]
    exact hlife.of_kind rfl (fun _ => ⟨ha, hrun⟩) id fun he => absurd he henq
  · rw [hslot, hacq, hn]
    refine ⟨fun he => absurd he henq, fun _ => ?_, fun hna => absurd ha hna,
      fun hm => ⟨harmed hm, hzero⟩⟩
    rw [hinits, hrels]
    exact h.timer.ofAcq ha
  · rw [hmsgs, htpc, hacq]
    exact hstart
  · rw [hslot, hdfIo, hn, hzero]
    exact hhw
  · rw [hdfIo, htpc, hslot, hrem, hio]
    have hcannot := h.io.cannotIo
    rw [hpc] at hcannot
    exact ⟨h.io.dfIo, hcannot, h.io.stopped, h.io.removed⟩

/-- The handler does nothing but send. -/
theorem Inv.handledId (h : Inv s) (hpc : s.pc = .handle m failed b) :
    Inv { s with pc := .recycle m false b } := by
  have hhw := h.hw
  rw [(h.ofHandle hpc).2.2.1] at hhw
  exact h.handled hpc rfl rfl rfl rfl rfl rfl rfl rfl rfl rfl (fun hm => (h.timer.armed hm).1)
    h.start.handled hhw

/-- `MSG_EVT_SCAN_START`: the hardware is set. -/
theorem Inv.scanStart (h : Inv s) (hpc : s.pc = .handle m failed b) (hevt : m.evt = .scanStart) :
    Inv { s with
      hw := { s.hw with txPaused := true, rxScan := true, sets := s.hw.sets + 1 }
      stStarted := true
      pc := .recycle m false b } := by
  obtain ⟨ha, -, hzero, -⟩ := h.ofHandle hpc
  have hstart := h.start
  rw [hpc] at hstart
  have honce := hstart.once
  have hone : starts [m] = 1 := by simp [starts, hevt]
  have hnot : s.stStarted = false := by
    rw [Pc.handled, starts_append, hone] at honce
    cases hst : s.stStarted with
    | false => rfl
    | true => rw [hst, Bool.toNat_true] at honce; omega
  have hch : s.param.scanCh = none := by
    by_contra hne
    have := hstart.ofScanCh hne
    rw [hnot] at this
    cases this
  refine h.handled hpc rfl rfl rfl rfl rfl rfl rfl rfl rfl rfl (fun _ => rfl) ?_ ?_
  · refine ⟨fun _ => ha, fun _ => rfl, fun _ _ _ => rfl, ?_, fun hna => absurd ha hna⟩
    rw [Pc.handled, starts_append, hone] at honce
    simp only [List.append_nil, Bool.toNat_true]
    omega
  · have hsets := h.hw.sets
    have hundos := h.hw.undos
    rw [if_pos hzero] at hundos
    refine ⟨by simp [hsets, hnot], by simpa using hundos, fun _ _ _ => ⟨?_, rfl⟩⟩
    simp [onBackop, hch]

/-- `MSG_EVT_SWCH_START`: TX is paused exactly on the channels to scan. -/
theorem Inv.swchStart (h : Inv s) (hpc : s.pc = .handle m failed b) (hevt : m.evt = .swchStart)
    (room : Bool) {t : St} (ht : swchStart s room = some t) :
    Inv { t with pc := .recycle m false b } := by
  have hid := h.handledId hpc
  obtain ⟨ha, -, hzero, hlife⟩ := h.ofHandle hpc
  obtain ⟨hcur, -, -, -⟩ := hlife.kind
  have hst : s.stStarted := h.start.swch m (by simp [hpc, Pc.handled]) hevt
  unfold Cmd.swchStart at ht
  dsimp only at ht
  cases hsel : selectChnl s.param with
  | none => simp [hsel] at ht
  | some sel =>
    cases sel with
    | divideByZero => simp [hsel] at ht
    | null =>
      simp only [hsel, Option.some.injEq] at ht
      obtain rfl := ht
      rw [phlDispEngSendMsg_pc _ _ _ _ _ _ (by simp)]
      exact hid.send room false (by simp) (by simp) (by simp)
    | channel scanCh p =>
      simp only [hsel, Option.some.injEq] at ht
      obtain rfl := ht
      rw [phlDispEngSendMsg_pc _ _ _ _ _ _ (by simp)]
      have hback : onBackop p = decide (scanCh.scanMode = .backopMode) := by
        simp [onBackop, selectChnl_channel hsel]
      have hstart := h.start.handled
      have hstart' : StartOk s.msgs [] s.stAcquire s.stStarted p.scanCh :=
        ⟨hstart.startedAcq, fun _ => hst, hstart.swch, hstart.once, hstart.notAcq⟩
      have hhw := h.hw
      rw [hzero] at hhw
      obtain ⟨htx, hrx⟩ := hhw.tx hcur hst rfl
      have hdone (txPaused : Bool) (htx : txPaused = !onBackop p) :
          Inv { s with
            param := p
            hw := { s.hw with txPaused := txPaused }
            timer := { s.timer with armed := true }
            pc := .recycle m false b } :=
        h.handled hpc rfl rfl rfl rfl rfl rfl rfl rfl rfl rfl (fun _ => hst) hstart'
          ⟨hhw.sets, hhw.undos, fun _ _ _ => ⟨htx, hrx⟩⟩
      refine (hdone _ ?_).send room false (by simp : Evt.swchDone ≠ .scanStart)
        (fun _ => hst) (by simp : Completion.swchDone ≠ .abort)
      rw [hback, htx]
      -- paused before the switch exactly if the last channel was one to scan
      cases onBackop s.param <;> cases decide (scanCh.scanMode = .backopMode) <;> rfl

/-- `MSG_EVT_LISTEN_STATE_EXPIRE`, where the listen state is extended. -/
theorem Inv.listenExt (h : Inv s) (hpc : s.pc = .handle m failed b) (hch : s.param.scanCh ≠ none) :
    Inv { s with timer := { s.timer with armed := true }, pc := .recycle m false b } := by
  have hhw := h.hw
  rw [(h.ofHandle hpc).2.2.1] at hhw
  exact h.handled hpc rfl rfl rfl rfl rfl rfl rfl rfl rfl rfl (fun _ => h.start.ofScanCh hch)
    h.start.handled hhw

/-- A handler of `MSG_EVT_SCAN_END` that gets the token released. -/
theorem Inv.freed (h : Inv s) (hpc : s.pc = .handle m failed b) {slot : TokenSlot}
    (hslot : s.slot.freeToken = (slot, .success)) {dfIo : Bool} (hdfIo : dfIo → s.ioLost)
    (result : Option ScanResult) :
    Inv { s with slot := slot, stDfIo := dfIo, result := result, pc := .ending m b } := by
  obtain ⟨ha, henq, hzero, hlife⟩ := h.ofHandle hpc
  obtain ⟨henq', hcur, hstarted⟩ := freeToken_frame s.slot
  rw [hslot] at henq' hcur hstarted
  dsimp only at henq' hcur hstarted
  refine ⟨hlife.release hslot, ?_, h.start.handled, ?_, ?_⟩ <;> dsimp only
  · exact h.timer.of_acq (henq' ▸ henq) ha
  · -- the scan has not ended yet, so nothing depends on the flag
    refine ⟨h.hw.sets, ?_, ?_⟩
    · have hundos := h.hw.undos
      rw [if_pos hzero] at hundos ⊢
      exact hundos
    · rw [hcur]
      exact h.hw.tx
  · have hcannot := h.io.cannotIo
    rw [hpc] at hcannot
    refine ⟨hdfIo, hcannot, ?_, h.io.removed⟩
    rw [hstarted]
    exact h.io.stopped

/-- A handler of `MSG_EVT_SCAN_END` that does not: the request is already to be aborted. -/
theorem Inv.notFreed (h : Inv s) (hpc : s.pc = .handle m failed b)
    (hs : s.slot.freeToken.2 ≠ .success) :
    Inv { s with slot := s.slot.freeToken.1, pc := .recycle m false b } := by
  have hid := h.handledId hpc
  exact hid.onSlot (hid.life.freeToken_failure hs) (freeToken_frame s.slot)

/-- The message handler of the request. -/
theorem Inv.internalEvt (h : Inv s) (hpc : s.pc = .handle m failed b) (c : Choice) {t : St}
    (ht : cmdScanHdlInternalEvt s m b c = some t) : Inv t := by
  have hid := h.handledId hpc
  unfold cmdScanHdlInternalEvt at ht
  dsimp only at ht
  cases hevt : m.evt with
  | scanStart =>
    simp only [hevt, Option.some.injEq] at ht
    obtain rfl := ht
    rw [phlDispEngSendMsg_pc _ _ _ _ _ _ (by simp)]
    exact (h.scanStart hpc hevt).send c.room false (by simp) (fun _ => rfl) (by simp)
  | listenStateExpire =>
    cases hch : s.param.scanCh with
    | none => simp [hevt, hch] at ht
    | some ch =>
      have hne : s.param.scanCh ≠ none := by simp [hch]
      simp only [hevt, hch] at ht
      split at ht
      · obtain rfl := Option.some.inj ht
        exact h.listenExt hpc hne
      · obtain rfl := Option.some.inj ht
        rw [phlDispEngSendMsg_pc _ _ _ _ _ _ (by simp)]
        exact hid.send c.room false (by simp) (fun _ => h.start.ofScanCh hne) (by simp)
  | swchStart =>
    simp only [hevt] at ht
    obtain ⟨u, hu, rfl⟩ := Option.map_eq_some_iff.mp ht
    exact h.swchStart hpc hevt c.room hu
  | swchDone =>
    cases hch : s.param.scanCh with
    | none => simp [hevt, hch] at ht
    | some ch =>
      simp only [hevt, hch, Option.some.injEq] at ht
      obtain rfl := ht
      exact hid
  | scanEnd =>
    simp only [hevt] at ht
    split at ht
    · next hs =>
      obtain rfl := Option.some.inj ht
      exact h.freed hpc (Prod.ext rfl hs) h.io.dfIo (some .complete)
    · next hs =>
      obtain rfl := Option.some.inj ht
      exact h.notFreed hpc hs

/-- The fail handler of the request. -/
theorem Inv.failEvHdlr (h : Inv s) (hpc : s.pc = .handle m failed b) (c : Choice) :
    Inv (cmdScanFailEvHdlr s m b c) := by
  have hid := h.handledId hpc
  have hend : Inv { (phlDispEngSendMsg s c.room .scanEnd .none false).1 with
      pc := .recycle m false b } := by
    rw [phlDispEngSendMsg_pc _ _ _ _ _ _ (by simp)]
    exact hid.send c.room false (by simp) (by simp) (by simp)
  have hcannot := h.io.cannotIo
  rw [hpc] at hcannot
  unfold cmdScanFailEvHdlr
  dsimp only
  cases hevt : m.evt with
  | scanStart => exact hend
  | swchStart => exact hend
  | swchDone => exact hend
  | listenStateExpire => exact hid
  | scanEnd =>
    dsimp only
    split
    · next hs =>
      refine h.freed hpc (Prod.ext rfl hs) ?_ s.result
      intro hd
      rcases Bool.or_eq_true _ _ ▸ hd with hd | hb
      · exact h.io.dfIo hd
      · exact hcannot hb
    · next hs => exact h.notFreed hpc hs

end

end Rtl88x2cu.Scan.Cmd
