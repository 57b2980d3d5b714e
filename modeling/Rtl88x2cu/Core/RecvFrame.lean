import Mathlib.Algebra.Order.Ring.Nat
import Mathlib.Data.List.Nodup
import Mathlib.Data.List.Perm.Basic
import Mathlib.Logic.Function.Basic
import Rtl88x2cu.Lib.Run
import Rtl88x2cu.Lib.Turns

/-!
# The receive frames of the core layer

`rtw_core_rx_process` takes a `recv_frame` out of the free queue for each packet of the PHL, and a
frame for each interface that gets a copy of a broadcast (`core/rtw_recv.c`, `core/rtw_mi.c`). The
frame is validated, decrypted and indicated, or parked in the defragmentation queue of a station,
and `rtw_free_recvframe` puts it back and returns its packet to the PHL.

Frames and packets are numbers, stations (`σ`) arbitrary. What a validation, a decryption or an
allocation comes to is an input. The contents of the frames are left out, but for the fields of the
header that decide what happens to the frame.
-/

namespace Rtl88x2cu.Core

/-! ## Model -/

/-- The fields of `struct rx_pkt_attrib` read by the defragmentation. -/
structure RxPktAttrib where
  mfrag : Bool
  fragNum : ℕ
  privacy : Bool
  deriving DecidableEq, Repr

/-- An operation on a frame or a packet of the PHL. -/
inductive Op where
  | alloc (frame : ℕ)
  | free (frame : ℕ)
  /-- `rtw_phl_query_rx_pkt`. -/
  | query (rxReq : ℕ)
  /-- `rtw_phl_return_rxbuf`. -/
  | ret (rxReq : ℕ)
  deriving DecidableEq, Repr

/-- `struct recv_priv`, with the fields of its frames and the `defrag_q` of the stations. -/
structure RecvPriv (σ : Type) where
  freeRecvQueue : List ℕ
  freeRecvframeCnt : ℕ
  defragQ : σ → List ℕ
  rxReq : ℕ → Option ℕ
  /-- Whether `pkt` is not `NULL`. -/
  pkt : ℕ → Bool
  attrib : ℕ → RxPktAttrib
  /-- The operations so far. -/
  log : List Op
  /-- `free_recvframe_cnt` and the length of the free queue, each time it was unlocked. -/
  unlocked : List (ℕ × ℕ)

variable {σ : Type}

/-- `rtw_init_recv_priv` for `n` frames. -/
def rtwInitRecvPriv (σ : Type) (n : ℕ) : RecvPriv σ where
  freeRecvQueue := List.range n
  freeRecvframeCnt := n
  defragQ := fun _ => []
  rxReq := fun _ => none
  pkt := fun _ => false
  attrib := fun _ => ⟨false, 0, false⟩
  log := []
  unlocked := []

/-- `rtw_alloc_recvframe`. -/
def rtwAllocRecvframe (s : RecvPriv σ) : Option (ℕ × RecvPriv σ) :=
  match s.freeRecvQueue with
  | [] => none
  | frame :: queue =>
    let cnt := s.freeRecvframeCnt - 1
    some (frame, { s with
      freeRecvQueue := queue
      freeRecvframeCnt := cnt
      rxReq := Function.update s.rxReq frame none
      log := s.log ++ [.alloc frame]
      unlocked := s.unlocked ++ [(cnt, queue.length)] })

/-- `rtw_free_recvframe`. `rtw_list_delete` takes the frame out of the queue it is in, which may
be a defragmentation queue or the free queue itself; `rx_req` is not cleared. -/
def rtwFreeRecvframe (s : RecvPriv σ) (frame : ℕ) : RecvPriv σ :=
  let queue := s.freeRecvQueue.erase frame ++ [frame]
  let cnt := s.freeRecvframeCnt + 1
  { s with
    freeRecvQueue := queue
    freeRecvframeCnt := cnt
    defragQ := fun q => (s.defragQ q).erase frame
    pkt := Function.update s.pkt frame false
    log := s.log ++ (s.rxReq frame).toList.map .ret ++ [.free frame]
    unlocked := s.unlocked ++ [(cnt, queue.length)] }

@[simp]
theorem rtwFreeRecvframe_defragQ (s : RecvPriv σ) (frame : ℕ) (q : σ) :
    (rtwFreeRecvframe s frame).defragQ q = (s.defragQ q).erase frame := rfl

/-- `rtw_free_recvframe_queue`. -/
def rtwFreeRecvframeQueue (s : RecvPriv σ) (q : σ) : RecvPriv σ :=
  (s.defragQ q).foldl rtwFreeRecvframe s

/-- The loop of `recvframe_defrag`: whether the fragments after the first are numbered on from
`curfragnum`, which has 8 bits. -/
def fragmentsInOrder (s : RecvPriv σ) : ℕ → List ℕ → Bool
  | _, [] => true
  | curfragnum, frame :: frames =>
    curfragnum = (s.attrib frame).fragNum && fragmentsInOrder s ((curfragnum + 1) % 256) frames

section

variable [DecidableEq σ]

/-- `recvframe_defrag`, for a queue that is not empty. -/
def recvframeDefrag (s : RecvPriv σ) (q : σ) : Option ℕ × RecvPriv σ :=
  match s.defragQ q with
  | [] => (none, s)
  | prframe :: frames =>
    let s := { s with defragQ := Function.update s.defragQ q frames }
    if (s.attrib prframe).fragNum ≠ 0 then
      (none, rtwFreeRecvframeQueue (rtwFreeRecvframe s prframe) q)
    else if fragmentsInOrder s 1 frames then
      (some prframe, rtwFreeRecvframeQueue s q)
    else
      (none, rtwFreeRecvframeQueue (rtwFreeRecvframe s prframe) q)

/-- `_FAIL`, `_SUCCESS` and `RTW_RX_HANDLED`. -/
inductive Ret where
  | fail
  | success
  | handled
  deriving DecidableEq, Repr

/-- The types of `GetFrameType`. -/
inductive FrameType where
  | mgt
  | ctrl
  | data
  | unknown
  deriving DecidableEq, Repr

/-- The fields of the frame header read by `validate_recv_frame`. -/
structure Header where
  ver : ℕ
  type : FrameType
  attrib : RxPktAttrib
  deriving DecidableEq, Repr

/-- What an interface finds on validating a frame: whether `validate_mgmt_protect` and
`recvframe_chkmic` accept it, the station of its transmitter and the broadcast station, and the
result of `validate_recv_data_frame`. -/
structure Checks (σ : Type) where
  mgmtProtect : Bool
  stainfo : Option σ
  bcmcStainfo : Option σ
  chkmic : Bool
  dataFrame : Ret

/-- The `pdefrag_q` of `recvframe_chk_defrag`. -/
def Checks.defragQ (checks : Checks σ) (type : FrameType) : Option σ :=
  match checks.stainfo with
  | some sta => some sta
  | none => if type ≠ .data then checks.bcmcStainfo else none

/-- `recvframe_chk_defrag`. -/
def recvframeChkDefrag (s : RecvPriv σ) (checks : Checks σ) (type : FrameType) (frame : ℕ) :
    Option ℕ × RecvPriv σ :=
  let attrib := s.attrib frame
  let r : Option ℕ × RecvPriv σ :=
    if attrib.mfrag then
      match checks.defragQ type with
      | some q =>
        let s := if attrib.fragNum = 0 ∧ s.defragQ q ≠ [] then rtwFreeRecvframeQueue s q else s
        (none, { s with defragQ := Function.update s.defragQ q (s.defragQ q ++ [frame]) })
      | none => (none, rtwFreeRecvframe s frame)
    else if attrib.fragNum ≠ 0 then
      match checks.defragQ type with
      | some q =>
        recvframeDefrag
          { s with defragQ := Function.update s.defragQ q (s.defragQ q ++ [frame]) } q
      | none => (none, rtwFreeRecvframe s frame)
    else
      (some frame, s)
  match r with
  | (some prtnframe, s) =>
    if (s.attrib prtnframe).privacy && !checks.chkmic then (none, rtwFreeRecvframe s prtnframe)
    else (some prtnframe, s)
  | (none, s) => (none, s)

/-- `validate_recv_mgnt_frame`. `mgt_dispatcher` leaves the frame to the caller. -/
def validateRecvMgntFrame (s : RecvPriv σ) (checks : Checks σ) (frame : ℕ) : Ret × RecvPriv σ :=
  if !checks.mgmtProtect then (.success, s)
  else (.success, (recvframeChkDefrag s checks .mgt frame).2)

/-- `validate_recv_frame`. Only a data frame is passed on. -/
def validateRecvFrame (s : RecvPriv σ) (hdr : Header) (checks : Checks σ) (frame : ℕ) :
    Ret × RecvPriv σ :=
  if hdr.ver ≠ 0 then
    (.fail, s)
  else
    let s := { s with attrib := Function.update s.attrib frame hdr.attrib }
    match hdr.type with
    | .mgt => (.fail, (validateRecvMgntFrame s checks frame).2)
    | .ctrl => (.fail, s)
    | .data => (checks.dataFrame, s)
    | .unknown => (.fail, s)

/-- An interface of the device: whether it is another one than the primary interface, is up, is
registered, and allows broadcast data; whether the network buffer of a frame can be duplicated for
it; and what it finds on validating the frame. -/
structure Iface (σ : Type) where
  buddy : Bool
  up : Bool
  registered : Bool
  allowBmcDataRx : Bool
  duplicateSkb : Bool
  checks : Checks σ

/-- The interface gets a clone of the broadcast. -/
def Iface.active (iface : Iface σ) (type : FrameType) : Bool :=
  iface.buddy && iface.up && iface.registered && (type ≠ .data || iface.allowBmcDataRx)

/-- `_rtw_mi_buddy_clone_bcmc_packet`. -/
def cloneBcmcPacket (s : RecvPriv σ) (hdr : Header) (iface : Iface σ) (frame clone : ℕ) :
    RecvPriv σ :=
  let s := { s with attrib := Function.update s.attrib clone (s.attrib frame) }
  if iface.duplicateSkb then
    (validateRecvFrame { s with pkt := Function.update s.pkt clone true } hdr iface.checks clone).2
  else
    s

/-- `rtw_mi_buddy_clone_bcmc_packet`. -/
def rtwMiBuddyCloneBcmcPacket (s : RecvPriv σ) (hdr : Header) (frame : ℕ) :
    List (Iface σ) → RecvPriv σ
  | [] => s
  | iface :: ifaces =>
    if iface.active hdr.type then
      match rtwAllocRecvframe s with
      | some (clone, s') =>
        rtwMiBuddyCloneBcmcPacket
          (rtwFreeRecvframe (cloneBcmcPacket s' hdr iface frame clone) clone) hdr frame ifaces
      | none => rtwMiBuddyCloneBcmcPacket s hdr frame ifaces
    else
      rtwMiBuddyCloneBcmcPacket s hdr frame ifaces

/-- A packet of the PHL, and what the functions on its way come to: whether it brings its network
buffer (`os_priv`) or one can be allocated; whether there is a primary interface, and one with the
address of the receiver; whether an error is flagged (`icv_err`, `crc_err`) and the interface is
up; then, for a data frame, the outcomes of the functions that decrypt and indicate it. -/
structure RxPkt (σ : Type) where
  rxReq : ℕ
  osPriv : Bool
  allocPkt : Bool
  primaryAdapter : Bool
  bmc : Bool
  iface : Bool
  hdr : Header
  ifaces : List (Iface σ)
  err : Bool
  up : Bool
  checks : Checks σ
  decryptor : Bool
  chkmic : Bool
  portctrl : Bool
  amsdu : Bool
  ethhdr : Bool
  indicateCheck : Bool

/-- `enum rtw_core_rx_state`. `CORE_RX_CONTINUE` is `_SUCCESS`. -/
inductive CoreRxState where
  | rxContinue
  | done
  | drop
  | fail
  deriving DecidableEq, Repr

/-- `rtw_core_update_recvframe`. -/
def rtwCoreUpdateRecvframe (s : RecvPriv σ) (frame : ℕ) (rx : RxPkt σ) :
    CoreRxState × RecvPriv σ :=
  let r : CoreRxState × RecvPriv σ :=
    if !rx.osPriv && !rx.allocPkt then
      (.fail, s)
    else
      let s := { s with pkt := Function.update s.pkt frame true }
      if !rx.primaryAdapter then
        (.rxContinue, s)
      else if !rx.bmc then
        (if rx.iface then .rxContinue else .fail, s)
      else
        (.rxContinue, rtwMiBuddyCloneBcmcPacket s rx.hdr frame rx.ifaces)
  (r.1, { r.2 with rxReq := Function.update r.2.rxReq frame (some rx.rxReq) })

/-- `rtw_core_rx_data_pre_process`. `decryptor` and `portctrl` leave the frame to the caller. -/
def rtwCoreRxDataPreProcess (s : RecvPriv σ) (frame : ℕ) (rx : RxPkt σ) : CoreRxState :=
  if !rx.decryptor then .drop
  else if (s.attrib frame).privacy && !rx.chkmic then .drop
  else if !rx.portctrl then .drop
  else .rxContinue

/-- `rtw_recv_indicatepkt`. -/
def rtwRecvIndicatepkt (s : RecvPriv σ) (frame : ℕ) : Ret × RecvPriv σ :=
  if !s.pkt frame then
    (.fail, rtwFreeRecvframe s frame)
  else
    (.success, rtwFreeRecvframe { s with pkt := Function.update s.pkt frame false } frame)

/-- `rtw_core_rx_data_post_process`. `amsdu_to_msdu` always frees the frame and succeeds. -/
def rtwCoreRxDataPostProcess (s : RecvPriv σ) (frame : ℕ) (rx : RxPkt σ) :
    CoreRxState × RecvPriv σ :=
  if rx.amsdu then (.done, rtwFreeRecvframe s frame)
  else if !rx.ethhdr then (.drop, s)
  else if !rx.indicateCheck then (.drop, s)
  else
    match rtwRecvIndicatepkt s frame with
    | (.success, s) => (.done, s)
    | (_, s) => (.drop, s)

/-- An iteration of `rtw_core_rx_process` from `validate_recv_frame` on. -/
def rxValidate (s : RecvPriv σ) (frame : ℕ) (rx : RxPkt σ) : RecvPriv σ :=
  let (ret, s) := validateRecvFrame s rx.hdr rx.checks frame
  if ret ≠ .success then
    rtwFreeRecvframe s frame
  else if rtwCoreRxDataPreProcess s frame rx ≠ .rxContinue then
    rtwFreeRecvframe s frame
  else
    let (state, s) := rtwCoreRxDataPostProcess s frame rx
    if state = .done then s else rtwFreeRecvframe s frame

/-- An iteration of `rtw_core_rx_process` from `rtw_core_update_recvframe` on. -/
def rxFrame (s : RecvPriv σ) (frame : ℕ) (rx : RxPkt σ) : RecvPriv σ :=
  let (state, s) := rtwCoreUpdateRecvframe s frame rx
  if state ≠ .rxContinue then
    rtwFreeRecvframe s frame
  else if rx.err then
    rtwFreeRecvframe s frame
  else if !rx.up then
    rtwFreeRecvframe s frame
  else
    rxValidate s frame rx

/-- An iteration of `rtw_core_rx_process`, given what `rtw_phl_query_rx_pkt` returns; `false` when
the loop is left. -/
def rxIter (s : RecvPriv σ) (rx : Option (RxPkt σ)) : Bool × RecvPriv σ :=
  match rtwAllocRecvframe s with
  | none => (false, s)
  | some (frame, s) =>
    match rx with
    | none => (false, rtwFreeRecvframe s frame)
    | some rx => (true, rxFrame { s with log := s.log ++ [.query rx.rxReq] } frame rx)

/-- `rtw_core_rx_process`, given what `rtw_phl_query_rx_pkt` returns in each iteration. -/
def rtwCoreRxProcess (s : RecvPriv σ) : List (Option (RxPkt σ)) → RecvPriv σ
  | [] => s
  | rx :: rxs =>
    match rxIter s rx with
    | (true, s') => rtwCoreRxProcess s' rxs
    | (false, s') => s'

/-- The events are the iterations of `rtw_core_rx_process`. -/
def step (s : RecvPriv σ) (rx : Option (RxPkt σ)) : Option (RecvPriv σ) := some (rxIter s rx).2

/-- `rtw_core_rx_process` is a run of iterations. -/
theorem rtwCoreRxProcess_run (s : RecvPriv σ) (rxs : List (Option (RxPkt σ))) :
    ∃ pre, pre <+: rxs ∧ run step s pre = some (rtwCoreRxProcess s rxs) := by
  induction rxs generalizing s with
  | nil => exact ⟨[], List.prefix_refl _, rfl⟩
  | cons rx rxs ih =>
    have hrun (pre : List (Option (RxPkt σ))) :
        run step s (rx :: pre) = run step (rxIter s rx).2 pre := rfl
    unfold rtwCoreRxProcess
    split
    next s' hiter =>
      obtain ⟨pre, hpre, hr⟩ := ih s'
      refine ⟨rx :: pre, (List.prefix_cons_inj rx).mpr hpre, ?_⟩
      rw [hrun, hiter]
      exact hr
    next s' hiter =>
      refine ⟨[rx], by simp, ?_⟩
      rw [hrun, hiter]
      rfl

/-! ## Conditions -/

/-- `recvframe_chk_defrag` frees the frame: it is a fragment and there is no queue for it, it is
the last fragment, or it is not a fragment and its MIC is wrong. -/
def freedByDefrag (hdr : Header) (checks : Checks σ) : Bool :=
  hdr.ver = 0 && hdr.type = .mgt && checks.mgmtProtect &&
    if hdr.attrib.mfrag then (checks.defragQ .mgt).isNone
    else hdr.attrib.fragNum ≠ 0 || hdr.attrib.privacy && !checks.chkmic

/-- `rtw_core_update_recvframe` makes clones of the frame. -/
def RxPkt.cloned (rx : RxPkt σ) : Bool := (rx.osPriv || rx.allocPkt) && rx.primaryAdapter && rx.bmc

/-- `rtw_core_update_recvframe` returns `CORE_RX_CONTINUE`. -/
def RxPkt.updated (rx : RxPkt σ) : Bool :=
  (rx.osPriv || rx.allocPkt) && (!rx.primaryAdapter || rx.bmc || rx.iface)

/-- The frame is validated. -/
def RxPkt.validated (rx : RxPkt σ) : Bool := rx.updated && !rx.err && rx.up

/-- No clone of a broadcast is freed by the defragmentation. -/
def ClonesOk (hdr : Header) (ifaces : List (Iface σ)) : Prop :=
  ∀ iface ∈ ifaces, iface.active hdr.type → iface.duplicateSkb →
    freedByDefrag hdr iface.checks = false

instance (hdr : Header) (ifaces : List (Iface σ)) : Decidable (ClonesOk hdr ifaces) :=
  inferInstanceAs (Decidable (∀ iface ∈ ifaces, iface.active hdr.type → iface.duplicateSkb →
    freedByDefrag hdr iface.checks = false))

/-- Neither the frame nor a clone of it is freed by the defragmentation. There is a frame if the
free queue is not empty, and there are clones if it has a second frame. -/
def InputOk (s : RecvPriv σ) : Option (RxPkt σ) → Prop
  | none => True
  | some rx =>
    (s.freeRecvQueue ≠ [] → rx.validated → freedByDefrag rx.hdr rx.checks = false) ∧
    (s.freeRecvQueue.tail ≠ [] → rx.cloned → ClonesOk rx.hdr rx.ifaces)

instance (s : RecvPriv σ) (rx : Option (RxPkt σ)) : Decidable (InputOk s rx) :=
  match rx with
  | none => isTrue trivial
  | some rx => inferInstanceAs (Decidable (
      (s.freeRecvQueue ≠ [] → rx.validated → freedByDefrag rx.hdr rx.checks = false) ∧
      (s.freeRecvQueue.tail ≠ [] → rx.cloned → ClonesOk rx.hdr rx.ifaces)))

/-! ## Validation -/

variable {s s' : RecvPriv σ} {frame : ℕ}

/-- A frame that is freed leaves its defragmentation queue. -/
theorem free_parked (hq : ∀ q, s.defragQ q = []) (q : σ) (frame : ℕ) :
    rtwFreeRecvframe { s with defragQ := Function.update s.defragQ q [frame] } frame =
      rtwFreeRecvframe s frame := by
  have hdefrag : (fun q' => (Function.update s.defragQ q [frame] q').erase frame) =
      fun q' => (s.defragQ q').erase frame := by
    funext q'
    by_cases heq : q' = q
    · subst heq
      simp [hq q']
    · rw [Function.update_of_ne heq]
  simp only [rtwFreeRecvframe, hdefrag]

/-- The last fragment is alone in its queue, and is freed for its number. -/
theorem recvframeDefrag_last (hq : ∀ q, s.defragQ q = []) (q : σ)
    (hfrag : (s.attrib frame).fragNum ≠ 0) :
    recvframeDefrag { s with defragQ := Function.update s.defragQ q [frame] } q =
      (none, rtwFreeRecvframe s frame) := by
  have hempty : Function.update (Function.update s.defragQ q [frame]) q [] = s.defragQ := by
    rw [Function.update_idem, ← hq q, Function.update_eq_self]
  unfold recvframeDefrag
  simp only [Function.update_self, hempty, hfrag, ne_eq, not_false_eq_true, if_true]
  simp [rtwFreeRecvframeQueue, hq q]

/-- Between two frames every defragmentation queue is empty. Then the frame is freed by
`recvframe_chk_defrag`, or is at most parked. -/
theorem recvframeChkDefrag_free (hq : ∀ q, s.defragQ q = []) (hdr : Header) (checks : Checks σ)
    (hattrib : s.attrib frame = hdr.attrib) (hver : hdr.ver = 0) (htype : hdr.type = .mgt)
    (hprotect : checks.mgmtProtect = true) :
    rtwFreeRecvframe (recvframeChkDefrag s checks .mgt frame).2 frame =
      rtwFreeRecvframe (if freedByDefrag hdr checks then rtwFreeRecvframe s frame else s)
        frame := by
  unfold recvframeChkDefrag freedByDefrag
  simp only [hattrib, hver, htype, hprotect, decide_true, Bool.true_and]
  by_cases hmfrag : hdr.attrib.mfrag = true
  · simp only [hmfrag, if_true]
    cases checks.defragQ .mgt with
    | none => simp
    | some q =>
      simp only [hq q, ne_eq, not_true_eq_false, and_false, if_false, List.nil_append,
        Option.isNone_some, Bool.false_eq_true]
      exact free_parked hq q frame
  · simp only [hmfrag, Bool.false_eq_true, if_false]
    by_cases hfrag : hdr.attrib.fragNum = 0
    · simp only [hfrag, ne_eq, not_true_eq_false, if_false, hattrib, decide_false, Bool.false_or]
      cases hdr.attrib.privacy && !checks.chkmic <;> rfl
    · simp only [hfrag, ne_eq, not_false_eq_true, if_true, decide_true, Bool.true_or]
      cases checks.defragQ .mgt with
      | none => rfl
      | some q =>
        simp only [hq q, List.nil_append]
        rw [recvframeDefrag_last hq q (hattrib ▸ hfrag)]

/-- What becomes of a frame that is validated and freed: it is freed once, or twice. -/
theorem validateRecvFrame_free (hq : ∀ q, s.defragQ q = []) (hdr : Header) (checks : Checks σ)
    (frame : ℕ) :
    ∃ attrib, rtwFreeRecvframe (validateRecvFrame s hdr checks frame).2 frame =
      rtwFreeRecvframe (if freedByDefrag hdr checks then rtwFreeRecvframe { s with attrib } frame
        else { s with attrib }) frame := by
  unfold validateRecvFrame
  by_cases hver : hdr.ver = 0
  · refine ⟨Function.update s.attrib frame hdr.attrib, ?_⟩
    simp only [hver, ne_eq, not_true_eq_false, if_false]
    cases htype : hdr.type with
    | mgt =>
      unfold validateRecvMgntFrame
      cases hprotect : checks.mgmtProtect with
      | false => simp [freedByDefrag, hprotect]
      | true =>
        simp only [Bool.not_true, Bool.false_eq_true, if_false]
        exact recvframeChkDefrag_free
          (s := { s with attrib := Function.update s.attrib frame hdr.attrib }) hq hdr checks
          (Function.update_self ..) hver htype hprotect
    | ctrl => simp [freedByDefrag, htype]
    | data => simp [freedByDefrag, htype]
    | unknown => simp [freedByDefrag, htype]
  · exact ⟨s.attrib, by simp [freedByDefrag, hver]⟩

end

/-! ## Invariant -/

/-- The log, with the frames in `hand` and the packets in `out` taken and not yet put back. -/
structure LogOk (hand out : List ℕ) (log : List Op) : Prop where
  frames : ∀ f, Out (.alloc f) (.free f) (hand.count f) log
  rxReqs : ∀ r, Out (.query r) (.ret r) (out.count r) log

variable {n r : ℕ} {hand out : List ℕ} {log : List Op}

theorem LogOk.alloc (h : LogOk hand out log) (hf : frame ∉ hand) :
    LogOk (frame :: hand) out (log ++ [.alloc frame]) := by
  refine ⟨fun f => ?_, fun r => (h.rxReqs r).other (by simp) (by simp)⟩
  have hout := h.frames f
  by_cases heq : frame = f
  · subst heq
    rw [List.count_eq_zero.mpr hf] at hout
    rw [List.count_cons_self, List.count_eq_zero.mpr hf]
    exact hout.take (by simp)
  · rw [List.count_cons_of_ne heq]
    exact hout.other (by simpa using heq) (by simp)

theorem LogOk.free (h : LogOk (frame :: hand) out log) (hf : frame ∉ hand) :
    LogOk hand out (log ++ [.free frame]) := by
  refine ⟨fun f => ?_, fun r => (h.rxReqs r).other (by simp) (by simp)⟩
  have hout := h.frames f
  by_cases heq : frame = f
  · subst heq
    rw [List.count_cons_self, List.count_eq_zero.mpr hf] at hout
    rw [List.count_eq_zero.mpr hf]
    exact hout.put (by simp)
  · rw [List.count_cons_of_ne heq] at hout
    exact hout.other (by simp) (by simpa using heq)

theorem LogOk.query (h : LogOk hand [] log) (r : ℕ) : LogOk hand [r] (log ++ [.query r]) := by
  refine ⟨fun f => (h.frames f).other (by simp) (by simp), fun r' => ?_⟩
  have hout := h.rxReqs r'
  rw [List.count_nil] at hout
  by_cases heq : r = r'
  · subst heq
    rw [List.count_singleton_self]
    exact hout.take (by simp)
  · rw [List.count_cons_of_ne heq]
    exact hout.other (by simpa using heq) (by simp)

theorem LogOk.ret (h : LogOk hand [r] log) : LogOk hand [] (log ++ [.ret r]) := by
  refine ⟨fun f => (h.frames f).other (by simp) (by simp), fun r' => ?_⟩
  have hout := h.rxReqs r'
  rw [List.count_nil]
  by_cases heq : r = r'
  · subst heq
    rw [List.count_singleton_self] at hout
    exact hout.put (by simp)
  · rw [List.count_cons_of_ne heq] at hout
    exact hout.other (by simp) (by simpa using heq)

/-- Every frame is in the free queue or in `hand`, the counter is right and always was, and the
packets in `out` have not been returned. -/
structure Inv (n : ℕ) (hand out : List ℕ) (s : RecvPriv σ) : Prop where
  perm : (s.freeRecvQueue ++ hand).Perm (List.range n)
  parked : ∀ q, s.defragQ q = []
  cnt_eq : s.freeRecvframeCnt = s.freeRecvQueue.length
  unlocked_eq : ∀ p ∈ s.unlocked, p.1 = p.2
  log_ok : LogOk hand out s.log

theorem inv_init (n : ℕ) : Inv n [] [] (rtwInitRecvPriv σ n) where
  perm := by simp [rtwInitRecvPriv]
  parked _ := rfl
  cnt_eq := by simp [rtwInitRecvPriv]
  unlocked_eq := by simp [rtwInitRecvPriv]
  log_ok := ⟨fun _ => Out.nil, fun _ => Out.nil⟩

theorem Inv.nodup (h : Inv n hand out s) : (s.freeRecvQueue ++ hand).Nodup :=
  h.perm.nodup_iff.mpr List.nodup_range

/-- A frame in hand is not in the free queue. -/
theorem Inv.not_mem_queue (h : Inv n hand out s) (hf : frame ∈ hand) :
    frame ∉ s.freeRecvQueue := fun hmem =>
  (List.nodup_append.mp h.nodup).2.2 frame hmem frame hf rfl

/-- A frame taken from the free queue is in hand. -/
theorem Inv.alloc (h : Inv n hand out s) (hs : rtwAllocRecvframe s = some (frame, s')) :
    Inv n (frame :: hand) out s' := by
  unfold rtwAllocRecvframe at hs
  split at hs
  · cases hs
  next f queue hqueue =>
    obtain ⟨rfl, rfl⟩ := Prod.mk.inj (Option.some.inj hs)
    have hperm := h.perm
    have hnodup := h.nodup
    have hcnt := h.cnt_eq
    rw [hqueue] at hperm hnodup hcnt
    have hf : f ∉ hand := fun hmem =>
      (List.nodup_append.mp hnodup).2.2 f List.mem_cons_self f hmem rfl
    have hcnt' : s.freeRecvframeCnt - 1 = queue.length := by rw [hcnt]; rfl
    refine ⟨List.perm_middle.trans hperm, h.parked, hcnt', fun p hp => ?_, h.log_ok.alloc hf⟩
    obtain hp | hp := List.mem_append.mp hp
    · exact h.unlocked_eq p hp
    · rw [List.mem_singleton.mp hp]
      exact hcnt'

/-- A frame in hand is put back, after its packet has been returned. -/
theorem Inv.put (h : Inv n (frame :: hand) out s) {out' : List ℕ}
    (hlog : LogOk (frame :: hand) out' (s.log ++ (s.rxReq frame).toList.map .ret)) :
    Inv n hand out' (rtwFreeRecvframe s frame) := by
  have hqueue : frame ∉ s.freeRecvQueue := h.not_mem_queue List.mem_cons_self
  have hhand : frame ∉ hand := (List.nodup_cons.mp h.nodup.of_append_right).1
  have herase : s.freeRecvQueue.erase frame = s.freeRecvQueue := List.erase_of_not_mem hqueue
  have hcnt : s.freeRecvframeCnt + 1 = (s.freeRecvQueue.erase frame ++ [frame]).length := by
    rw [herase, List.length_append, h.cnt_eq]
    rfl
  refine ⟨?_, fun q => ?_, hcnt, fun p hp => ?_, hlog.free hhand⟩
  · simp only [rtwFreeRecvframe, herase, List.append_assoc]
    exact h.perm
  · rw [rtwFreeRecvframe_defragQ, h.parked q]
    rfl
  · obtain hp | hp := List.mem_append.mp hp
    · exact h.unlocked_eq p hp
    · rw [List.mem_singleton.mp hp]
      exact hcnt

/-- A frame without a packet is put back. -/
theorem Inv.free_clone (h : Inv n (frame :: hand) out s) (hreq : s.rxReq frame = none) :
    Inv n hand out (rtwFreeRecvframe s frame) := by
  apply h.put
  rw [hreq]
  simpa using h.log_ok

/-- A frame and its packet are put back. -/
theorem Inv.free (h : Inv n (frame :: hand) [r] s) (hreq : s.rxReq frame = some r) :
    Inv n hand [] (rtwFreeRecvframe s frame) := by
  apply h.put
  rw [hreq]
  exact h.log_ok.ret

/-! ## A counter that is too high -/

/-- `free_recvframe_cnt` is more than the length of the free queue. -/
structure TooHigh (s : RecvPriv σ) : Prop where
  parked : ∀ q, s.defragQ q = []
  cnt_lt : s.freeRecvQueue.length < s.freeRecvframeCnt

theorem TooHigh.alloc (h : TooHigh s) (hs : rtwAllocRecvframe s = some (frame, s')) :
    TooHigh s' := by
  unfold rtwAllocRecvframe at hs
  split at hs
  · cases hs
  next f queue hqueue =>
    obtain ⟨rfl, rfl⟩ := Prod.mk.inj (Option.some.inj hs)
    have hlt := h.cnt_lt
    rw [hqueue, List.length_cons] at hlt
    exact ⟨h.parked, Nat.lt_sub_of_add_lt hlt⟩

theorem TooHigh.free (h : TooHigh s) (frame : ℕ) : TooHigh (rtwFreeRecvframe s frame) := by
  refine ⟨fun q => ?_, ?_⟩
  · rw [rtwFreeRecvframe_defragQ, h.parked q]
    rfl
  · have hlt := h.cnt_lt
    have hle := List.length_erase_le (a := frame) (l := s.freeRecvQueue)
    simp only [rtwFreeRecvframe, List.length_append, List.length_singleton]
    omega

/-- A frame that is freed twice is counted twice. -/
theorem Inv.free_twice (h : Inv n (frame :: hand) out s) :
    TooHigh (rtwFreeRecvframe (rtwFreeRecvframe s frame) frame) := by
  have herase : s.freeRecvQueue.erase frame = s.freeRecvQueue :=
    List.erase_of_not_mem (h.not_mem_queue List.mem_cons_self)
  refine ⟨fun q => ?_, ?_⟩
  · simp [h.parked q]
  · have hmem : frame ∈ s.freeRecvQueue ++ [frame] := by simp
    have hlen := List.length_erase_add_one hmem
    have hcnt := h.cnt_eq
    simp only [rtwFreeRecvframe, herase, List.length_append, List.length_singleton] at hlen ⊢
    omega

theorem Inv.not_tooHigh (h : Inv n hand out s) : ¬ TooHigh s := by
  intro hhigh
  have hlt := hhigh.cnt_lt
  rw [h.cnt_eq] at hlt
  exact Nat.lt_irrefl _ hlt

/-! ## Clones -/

/-- What taking a frame out of the free queue changes. -/
theorem alloc_spec (hs : rtwAllocRecvframe s = some (frame, s')) :
    s.freeRecvQueue = frame :: s'.freeRecvQueue ∧ s'.rxReq frame = none ∧ s'.pkt = s.pkt := by
  unfold rtwAllocRecvframe at hs
  split at hs
  · cases hs
  next f queue hqueue =>
    obtain ⟨rfl, rfl⟩ := Prod.mk.inj (Option.some.inj hs)
    exact ⟨hqueue, Function.update_self .., rfl⟩

theorem alloc_eq_none : rtwAllocRecvframe s = none ↔ s.freeRecvQueue = [] := by
  unfold rtwAllocRecvframe
  split <;> simp_all

section

variable [DecidableEq σ] {hdr : Header} {iface : Iface σ} {ifaces : List (Iface σ)} {clone : ℕ}

/-- What becomes of a clone: it is freed once, or twice. -/
theorem cloneBcmcPacket_free (hq : ∀ q, s.defragQ q = []) (hdr : Header) (iface : Iface σ)
    (frame clone : ℕ) :
    ∃ attrib pkt, (∀ f, f ≠ clone → pkt f = s.pkt f) ∧
      rtwFreeRecvframe (cloneBcmcPacket s hdr iface frame clone) clone =
        rtwFreeRecvframe (if iface.duplicateSkb && freedByDefrag hdr iface.checks then
          rtwFreeRecvframe { s with attrib, pkt } clone else { s with attrib, pkt }) clone := by
  unfold cloneBcmcPacket
  cases iface.duplicateSkb with
  | false =>
    refine ⟨Function.update s.attrib clone (s.attrib frame), s.pkt, fun _ _ => rfl, ?_⟩
    simp
  | true =>
    obtain ⟨attrib, hfree⟩ := validateRecvFrame_free (s := { s with
      attrib := Function.update s.attrib clone (s.attrib frame)
      pkt := Function.update s.pkt clone true }) hq hdr iface.checks clone
    refine ⟨attrib, Function.update s.pkt clone true, fun f hf => Function.update_of_ne hf .., ?_⟩
    simpa using hfree

/-- A clone that is freed by the defragmentation is counted twice, any other is put back. -/
theorem Inv.one_clone (h : Inv n (clone :: hand) out s) (hreq : s.rxReq clone = none)
    (hdr : Header) (iface : Iface σ) (frame : ℕ) :
    let s' := rtwFreeRecvframe (cloneBcmcPacket s hdr iface frame clone) clone
    if iface.duplicateSkb && freedByDefrag hdr iface.checks then TooHigh s'
    else Inv n hand out s' ∧ ∀ f ∈ hand, s'.pkt f = s.pkt f := by
  obtain ⟨attrib, pkt, hpkt, hfree⟩ := cloneBcmcPacket_free h.parked hdr iface frame clone
  have hinv : Inv n (clone :: hand) out { s with attrib, pkt } :=
    ⟨h.perm, h.parked, h.cnt_eq, h.unlocked_eq, h.log_ok⟩
  dsimp only
  rw [hfree]
  split
  · exact hinv.free_twice
  · refine ⟨hinv.free_clone hreq, fun f hf => ?_⟩
    have hclone : clone ∉ hand := (List.nodup_cons.mp h.nodup.of_append_right).1
    have hne : f ≠ clone := fun heq => hclone (heq ▸ hf)
    simp only [rtwFreeRecvframe, Function.update_of_ne hne]
    exact hpkt f hne

theorem TooHigh.one_clone (h : TooHigh s) (hdr : Header) (iface : Iface σ) (frame clone : ℕ) :
    TooHigh (rtwFreeRecvframe (cloneBcmcPacket s hdr iface frame clone) clone) := by
  obtain ⟨attrib, pkt, -, hfree⟩ := cloneBcmcPacket_free h.parked hdr iface frame clone
  have hhigh : TooHigh { s with attrib, pkt } := ⟨h.parked, h.cnt_lt⟩
  rw [hfree]
  split
  · exact (hhigh.free clone).free clone
  · exact hhigh.free clone

theorem TooHigh.clones (h : TooHigh s) (hdr : Header) (frame : ℕ) (ifaces : List (Iface σ)) :
    TooHigh (rtwMiBuddyCloneBcmcPacket s hdr frame ifaces) := by
  induction ifaces generalizing s with
  | nil => exact h
  | cons iface ifaces ih =>
    unfold rtwMiBuddyCloneBcmcPacket
    split
    · split
      next clone s' halloc => exact ih ((h.alloc halloc).one_clone hdr iface frame clone)
      next => exact ih h
    · exact ih h

/-- Clones that are not freed by the defragmentation are all put back. -/
theorem Inv.clones (h : Inv n hand out s) (hf : frame ∈ hand)
    (hok : s.freeRecvQueue ≠ [] → ClonesOk hdr ifaces) :
    Inv n hand out (rtwMiBuddyCloneBcmcPacket s hdr frame ifaces) ∧
      (rtwMiBuddyCloneBcmcPacket s hdr frame ifaces).pkt frame = s.pkt frame := by
  induction ifaces generalizing s with
  | nil => exact ⟨h, rfl⟩
  | cons iface ifaces ih =>
    have hrest : s.freeRecvQueue ≠ [] → ClonesOk hdr ifaces := fun hne iface' hmem =>
      hok hne iface' (List.mem_cons_of_mem _ hmem)
    unfold rtwMiBuddyCloneBcmcPacket
    split
    next hactive =>
      split
      next clone s' halloc =>
        obtain ⟨hqueue, hreq, hpkt⟩ := alloc_spec halloc
        have hne : s.freeRecvQueue ≠ [] := by simp [hqueue]
        have hclone := (h.alloc halloc).one_clone hreq hdr iface frame
        have hgood : (iface.duplicateSkb && freedByDefrag hdr iface.checks) = false := by
          cases hdup : iface.duplicateSkb with
          | false => rfl
          | true => exact hok hne iface List.mem_cons_self hactive hdup
        rw [hgood] at hclone
        obtain ⟨hinv, hpkts⟩ := hclone
        obtain ⟨hinv', hpkt'⟩ := ih hinv fun _ => hrest hne
        refine ⟨hinv', ?_⟩
        rw [hpkt', hpkts frame hf, hpkt]
      next => exact ih h hrest
    · exact ih h hrest

/-- A clone that is freed by the defragmentation is counted twice. -/
theorem Inv.clones_tooHigh (h : Inv n hand out s) (hne : s.freeRecvQueue ≠ [])
    (hbad : ¬ ClonesOk hdr ifaces) : TooHigh (rtwMiBuddyCloneBcmcPacket s hdr frame ifaces) := by
  induction ifaces generalizing s with
  | nil => exact absurd (by simp [ClonesOk]) hbad
  | cons iface ifaces ih =>
    have hcons : (iface.active hdr.type → iface.duplicateSkb →
        freedByDefrag hdr iface.checks = false) → ¬ ClonesOk hdr ifaces := fun hiface hrest =>
      hbad fun iface' hmem => (List.mem_cons.mp hmem).elim (fun heq => heq ▸ hiface) (hrest iface')
    unfold rtwMiBuddyCloneBcmcPacket
    split
    next hactive =>
      split
      next clone s' halloc =>
        have hclone := (h.alloc halloc).one_clone (alloc_spec halloc).2.1 hdr iface frame
        cases hbadc : iface.duplicateSkb && freedByDefrag hdr iface.checks with
        | true =>
          rw [hbadc] at hclone
          exact TooHigh.clones hclone hdr frame ifaces
        | false =>
          rw [hbadc] at hclone
          refine ih hclone.1 (by simp [rtwFreeRecvframe]) (hcons fun _ hdup => ?_)
          simpa [hdup] using hbadc
      next hnone => exact absurd (alloc_eq_none.mp hnone) hne
    next hactive => exact ih h hne (hcons fun hact => absurd hact hactive)

/-! ## Frames -/

variable {rx : RxPkt σ}

/-- What `rtw_core_update_recvframe` does: it finds a network buffer, makes the clones, and gives
the frame its packet. -/
theorem rtwCoreUpdateRecvframe_eq (s : RecvPriv σ) (frame : ℕ) (rx : RxPkt σ) :
    let t := if rx.osPriv || rx.allocPkt then { s with pkt := Function.update s.pkt frame true }
      else s
    let t := if rx.cloned then rtwMiBuddyCloneBcmcPacket t rx.hdr frame rx.ifaces else t
    rtwCoreUpdateRecvframe s frame rx = (if rx.updated then .rxContinue else .fail,
      { t with rxReq := Function.update t.rxReq frame (some rx.rxReq) }) := by
  unfold rtwCoreUpdateRecvframe RxPkt.updated RxPkt.cloned
  rw [← Bool.not_or]
  cases rx.osPriv || rx.allocPkt with
  | false => rfl
  | true =>
    cases rx.primaryAdapter with
    | false => rfl
    | true =>
      cases rx.bmc with
      | true => rfl
      | false => cases rx.iface <;> rfl

/-- The frame and its packet are kept, if the clones are put back. -/
theorem Inv.update (h : Inv n [frame] out s)
    (hok : s.freeRecvQueue ≠ [] → rx.cloned → ClonesOk rx.hdr rx.ifaces) :
    Inv n [frame] out (rtwCoreUpdateRecvframe s frame rx).2 ∧
      (rx.updated → (rtwCoreUpdateRecvframe s frame rx).2.pkt frame = true) := by
  rw [rtwCoreUpdateRecvframe_eq]
  have hreq {t : RecvPriv σ} (ht : Inv n [frame] out t) :
      Inv n [frame] out { t with rxReq := Function.update t.rxReq frame (some rx.rxReq) } :=
    ⟨ht.perm, ht.parked, ht.cnt_eq, ht.unlocked_eq, ht.log_ok⟩
  cases hbuf : rx.osPriv || rx.allocPkt with
  | false =>
    have hcloned : rx.cloned = false := by simp [RxPkt.cloned, hbuf]
    have hupdated : rx.updated = false := by simp [RxPkt.updated, hbuf]
    simp only [hcloned, hupdated, Bool.false_eq_true, if_false]
    exact ⟨hreq h, nofun⟩
  | true =>
    have hpkt : Inv n [frame] out { s with pkt := Function.update s.pkt frame true } :=
      ⟨h.perm, h.parked, h.cnt_eq, h.unlocked_eq, h.log_ok⟩
    cases hcloned : rx.cloned with
    | false => exact ⟨hreq hpkt, fun _ => Function.update_self ..⟩
    | true =>
      obtain ⟨hinv, heq⟩ := hpkt.clones (List.mem_singleton_self frame) fun hne => hok hne hcloned
      exact ⟨hreq hinv, fun _ => heq.trans (Function.update_self ..)⟩

/-- A clone that is freed by the defragmentation is counted twice. -/
theorem Inv.update_tooHigh (h : Inv n [frame] out s) (hne : s.freeRecvQueue ≠ [])
    (hcloned : rx.cloned = true) (hbad : ¬ ClonesOk rx.hdr rx.ifaces) :
    TooHigh (rtwCoreUpdateRecvframe s frame rx).2 := by
  have hbuf : (rx.osPriv || rx.allocPkt) = true := by
    simp only [RxPkt.cloned, Bool.and_eq_true] at hcloned
    exact hcloned.1.1
  have hpkt : Inv n [frame] out { s with pkt := Function.update s.pkt frame true } :=
    ⟨h.perm, h.parked, h.cnt_eq, h.unlocked_eq, h.log_ok⟩
  have hhigh : TooHigh (rtwMiBuddyCloneBcmcPacket { s with
      pkt := Function.update s.pkt frame true } rx.hdr frame rx.ifaces) :=
    hpkt.clones_tooHigh hne hbad
  rw [rtwCoreUpdateRecvframe_eq]
  simp only [hbuf, hcloned, if_true]
  exact ⟨hhigh.parked, hhigh.cnt_lt⟩

/-- A frame that is passed on has not been touched by the defragmentation. -/
theorem validateRecvFrame_success {hdr : Header} {checks : Checks σ}
    (h : (validateRecvFrame s hdr checks frame).1 = .success) :
    (validateRecvFrame s hdr checks frame).2 =
        { s with attrib := Function.update s.attrib frame hdr.attrib } ∧
      freedByDefrag hdr checks = false := by
  unfold validateRecvFrame at h ⊢
  by_cases hver : hdr.ver = 0
  · cases htype : hdr.type <;> simp_all [freedByDefrag]
  · simp [hver] at h

/-- What becomes of a frame that is validated: it is freed once, or twice. The second way to free
it twice, in `rtw_recv_indicatepkt`, is for a frame without a network buffer. -/
theorem rxValidate_eq (hq : ∀ q, s.defragQ q = []) (frame : ℕ) (rx : RxPkt σ) :
    ∃ attrib pkt twice,
      let t := { s with attrib, pkt }
      rxValidate s frame rx =
          rtwFreeRecvframe (if twice then rtwFreeRecvframe t frame else t) frame ∧
        (s.pkt frame = true → twice = freedByDefrag rx.hdr rx.checks) := by
  unfold rxValidate
  dsimp only
  split
  · obtain ⟨attrib, hfree⟩ := validateRecvFrame_free hq rx.hdr rx.checks frame
    exact ⟨attrib, s.pkt, freedByDefrag rx.hdr rx.checks, hfree, fun _ => rfl⟩
  next hret =>
    obtain ⟨hs, hfreed⟩ := validateRecvFrame_success (not_not.mp hret)
    rw [hs, hfreed]
    have honce : ∃ attrib pkt twice,
        let t := { s with attrib, pkt }
        rtwFreeRecvframe { s with attrib := Function.update s.attrib frame rx.hdr.attrib } frame =
            rtwFreeRecvframe (if twice then rtwFreeRecvframe t frame else t) frame ∧
          (s.pkt frame = true → twice = false) :=
      ⟨_, s.pkt, false, rfl, fun _ => rfl⟩
    split
    · exact honce
    · unfold rtwCoreRxDataPostProcess
      cases rx.amsdu with
      | true => exact honce
      | false =>
        cases rx.ethhdr with
        | false => exact honce
        | true =>
          cases rx.indicateCheck with
          | false => exact honce
          | true =>
            let attrib := Function.update s.attrib frame rx.hdr.attrib
            unfold rtwRecvIndicatepkt
            cases hpkt : s.pkt frame with
            | false => exact ⟨attrib, s.pkt, true, by simp [attrib], nofun⟩
            | true =>
              exact ⟨attrib, Function.update s.pkt frame false, false, by simp [attrib],
                fun _ => rfl⟩

/-- A frame that is not validated is freed. -/
theorem rxFrame_eq (s : RecvPriv σ) (frame : ℕ) (rx : RxPkt σ) :
    rxFrame s frame rx =
      if rx.validated then rxValidate (rtwCoreUpdateRecvframe s frame rx).2 frame rx
      else rtwFreeRecvframe (rtwCoreUpdateRecvframe s frame rx).2 frame := by
  have hstate : (rtwCoreUpdateRecvframe s frame rx).1 =
      if rx.updated then .rxContinue else .fail := by rw [rtwCoreUpdateRecvframe_eq]
  unfold rxFrame RxPkt.validated
  dsimp only
  rw [hstate]
  cases rx.updated with
  | false => rfl
  | true =>
    cases rx.err with
    | true => rfl
    | false => cases rx.up <;> rfl

/-- A frame that is freed by the defragmentation is counted twice, any other is put back. -/
theorem Inv.validate (h : Inv n [frame] [r] s) (rx : RxPkt σ) (hreq : s.rxReq frame = some r)
    (hpkt : s.pkt frame = true) :
    if freedByDefrag rx.hdr rx.checks then TooHigh (rxValidate s frame rx)
    else Inv n [] [] (rxValidate s frame rx) := by
  obtain ⟨attrib, pkt, twice, hfree, htwice⟩ := rxValidate_eq h.parked frame rx
  have hinv : Inv n [frame] [r] { s with attrib, pkt } :=
    ⟨h.perm, h.parked, h.cnt_eq, h.unlocked_eq, h.log_ok⟩
  rw [hfree, htwice hpkt]
  split
  · exact hinv.free_twice
  · exact hinv.free hreq

theorem TooHigh.of_update (h : TooHigh (rtwCoreUpdateRecvframe s frame rx).2) :
    TooHigh (rxFrame s frame rx) := by
  rw [rxFrame_eq]
  split
  · obtain ⟨attrib, pkt, twice, hfree, -⟩ := rxValidate_eq h.parked frame rx
    have hhigh : TooHigh { (rtwCoreUpdateRecvframe s frame rx).2 with attrib, pkt } :=
      ⟨h.parked, h.cnt_lt⟩
    rw [hfree]
    apply TooHigh.free
    split
    · exact hhigh.free frame
    · exact hhigh
  · exact h.free frame

/-- An iteration keeps the invariant exactly when neither the frame nor a clone is freed by the
defragmentation; otherwise the counter is too high after it. -/
theorem Inv.iter (h : Inv n [] [] s) (rx : Option (RxPkt σ)) :
    (InputOk s rx → Inv n [] [] (rxIter s rx).2) ∧ (¬ InputOk s rx → TooHigh (rxIter s rx).2) := by
  unfold rxIter
  split
  next hnone =>
    -- no frame is left
    have hqueue := alloc_eq_none.mp hnone
    refine ⟨fun _ => h, fun hbad => absurd ?_ hbad⟩
    cases rx <;> simp [InputOk, hqueue]
  next frame s' halloc =>
    obtain ⟨hqueue, hreq, -⟩ := alloc_spec halloc
    have hhand := h.alloc halloc
    cases rx with
    | none => exact ⟨fun _ => hhand.free_clone hreq, fun hbad => absurd trivial hbad⟩
    | some rx =>
      have hne : s.freeRecvQueue ≠ [] := by simp [hqueue]
      have htail : s.freeRecvQueue.tail = s'.freeRecvQueue := by rw [hqueue]; rfl
      have hquery : Inv n [frame] [rx.rxReq] { s' with log := s'.log ++ [.query rx.rxReq] } :=
        ⟨hhand.perm, hhand.parked, hhand.cnt_eq, hhand.unlocked_eq, hhand.log_ok.query _⟩
      simp only [InputOk, hne, htail, ne_eq, not_false_eq_true, forall_const]
      by_cases hclones : s'.freeRecvQueue ≠ [] → rx.cloned → ClonesOk rx.hdr rx.ifaces
      · obtain ⟨hupdate, hpkt⟩ := hquery.update hclones
        have hreq' : (rtwCoreUpdateRecvframe { s' with log := s'.log ++ [.query rx.rxReq] } frame
            rx).2.rxReq frame = some rx.rxReq := by
          rw [rtwCoreUpdateRecvframe_eq]
          exact Function.update_self ..
        rw [rxFrame_eq]
        split
        next hvalid =>
          have hupdated : rx.updated = true := by
            simp only [RxPkt.validated, Bool.and_eq_true] at hvalid
            exact hvalid.1.1
          have hvalidate := hupdate.validate rx hreq' (hpkt hupdated)
          refine ⟨fun hok => ?_, fun hbad => ?_⟩
          · rwa [hok.1 hvalid] at hvalidate
          · have hfreed : freedByDefrag rx.hdr rx.checks = true := by
              by_contra hnot
              exact hbad ⟨fun _ => Bool.eq_false_iff.mpr hnot, hclones⟩
            rwa [hfreed] at hvalidate
        next hvalid =>
          refine ⟨fun _ => hupdate.free hreq', fun hbad => absurd ⟨fun hv => ?_, hclones⟩ hbad⟩
          exact absurd hv hvalid
      · refine ⟨fun hok => absurd hok.2 hclones, fun _ => ?_⟩
        simp only [Classical.not_imp] at hclones
        obtain ⟨hqueue', hcloned, hbad⟩ := hclones
        exact (hquery.update_tooHigh hqueue' hcloned hbad).of_update

/-! ## Main results -/

/-- Every frame is taken and put back in turn, has been put back, and is in the free queue;
`free_recvframe_cnt` is and always was the length of the free queue; and every packet is queried
and returned in turn and has been returned. -/
structure Balanced (n : ℕ) (s : RecvPriv σ) : Prop where
  frame_turn : ∀ f, InTurn (.alloc f) (.free f) s.log
  frame_freed : ∀ f, s.log.count (.alloc f) = s.log.count (.free f)
  frame_perm : s.freeRecvQueue.Perm (List.range n)
  frame_parked : ∀ q, s.defragQ q = []
  cnt_eq : s.freeRecvframeCnt = s.freeRecvQueue.length
  unlocked_eq : ∀ p ∈ s.unlocked, p.1 = p.2
  rxReq_turn : ∀ r, InTurn (.query r) (.ret r) s.log
  rxReq_returned : ∀ r, s.log.count (.query r) = s.log.count (.ret r)

omit [DecidableEq σ] in
theorem inv_iff_balanced : Inv n [] [] s ↔ Balanced n s := by
  constructor
  · intro h
    have hperm := h.perm
    rw [List.append_nil] at hperm
    exact ⟨fun f => (h.log_ok.frames f).turn, fun f => (h.log_ok.frames f).count_eq, hperm,
      h.parked, h.cnt_eq, h.unlocked_eq, fun r => (h.log_ok.rxReqs r).turn,
      fun r => (h.log_ok.rxReqs r).count_eq⟩
  · intro h
    refine ⟨?_, h.frame_parked, h.cnt_eq, h.unlocked_eq, fun f => ?_, fun r => ?_⟩
    · rw [List.append_nil]
      exact h.frame_perm
    · exact ⟨h.frame_turn f, h.frame_freed f⟩
    · exact ⟨h.rxReq_turn r, h.rxReq_returned r⟩

/-- After every iteration all frames and packets are accounted for, if and only if no frame that
is validated, and no clone, is freed by the defragmentation. -/
theorem run_balanced_iff (n : ℕ) (rxs : List (Option (RxPkt σ))) :
    (∀ pre s, pre <+: rxs → run step (rtwInitRecvPriv σ n) pre = some s → Balanced n s) ↔
      Guarded step InputOk (rtwInitRecvPriv σ n) rxs := by
  simp only [← inv_iff_balanced]
  refine run_inv_iff_guarded (Inv n [] []) (fun s rx hs => by cases hs) (fun s rx s' h hs => ?_) rxs
    (inv_init n)
  obtain rfl := Option.some.inj hs
  obtain ⟨hgood, hbad⟩ := h.iter rx
  refine ⟨fun hinv => ?_, hgood⟩
  by_contra hnot
  exact hinv.not_tooHigh (hbad hnot)

end

/-- A fragment with a station of its own, whose queue it is parked in, and a data frame. -/
def parkedFragment : List (Option (RxPkt (Fin 1))) :=
  let checks : Checks (Fin 1) := ⟨true, some 0, none, true, .success⟩
  [some ⟨7, false, true, true, false, true, ⟨0, .mgt, ⟨true, 0, false⟩⟩, [], false, true, checks,
      true, true, true, false, true, true⟩,
    some ⟨8, true, false, true, false, true, ⟨0, .data, ⟨false, 0, true⟩⟩, [], false, true, checks,
      true, true, true, false, true, true⟩]

example : Guarded step InputOk (rtwInitRecvPriv (Fin 1) 2) parkedFragment := by decide +kernel

/-- A management frame numbered 1 without More Fragments, as its only fragment. -/
def lastFragment : List (Option (RxPkt (Fin 1))) :=
  [some ⟨7, false, true, true, false, true, ⟨0, .mgt, ⟨false, 1, false⟩⟩, [], false, true,
    ⟨true, some 0, none, true, .success⟩, true, true, true, false, true, true⟩]

/-- The last fragment is freed by `recvframe_defrag` and again by `rtw_core_rx_process`. -/
theorem lastFragment_freed_twice :
    ∃ s, run step (rtwInitRecvPriv (Fin 1) 2) lastFragment = some s ∧
      (s.freeRecvQueue, s.freeRecvframeCnt, s.log) =
        ([1, 0], 3, [.alloc 0, .query 7, .ret 7, .free 0, .ret 7, .free 0]) ∧
      ¬ Balanced 2 s := by
  have hview : (run step (rtwInitRecvPriv (Fin 1) 2) lastFragment).map (fun s =>
      (s.freeRecvQueue, s.freeRecvframeCnt, s.log)) =
      some ([1, 0], 3, [.alloc 0, .query 7, .ret 7, .free 0, .ret 7, .free 0]) := by
    decide +kernel
  obtain ⟨s, hrun, heq⟩ := Option.map_eq_some_iff.mp hview
  refine ⟨s, hrun, heq, fun hbal => ?_⟩
  obtain ⟨hqueue, hrest⟩ := Prod.mk.inj heq
  have hcnt := hbal.cnt_eq
  rw [hqueue, (Prod.mk.inj hrest).1] at hcnt
  simp at hcnt

end Rtl88x2cu.Core
