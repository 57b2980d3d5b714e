import Mathlib.Algebra.Order.Ring.Nat
import Mathlib.Logic.Function.Basic
import Rtl88x2cu.Core.FrameBytes
import Rtl88x2cu.EthAddr
import Rtl88x2cu.Lib.Run

/-!
# Putting fragments together

`recvframe_chk_defrag` (`core/rtw_recv.c`) queues the fragments of a frame with its transmitter, and
`recvframe_defrag` puts them together in the buffer of the first one, which
`core_alloc_recvframe_pkt` has allocated.

Only the fragment numbers of what is queued are looked at. Sequence numbers and TIDs are not, nor is
the room that is left in the buffer. `run_right` says when every frame that is delivered consists of
the fragments of one frame.
-/

namespace Rtl88x2cu.Core.Defrag

open Bytes

/-! ## Model -/

/-- `struct rx_pkt_attrib`, as far as it is read here. `priority` is the TID. -/
structure RxPktAttrib where
  ta : EthAddr
  priority : ℕ
  seqNum : ℕ
  fragNum : Fin 16
  mfrag : Bool
  hdrlen : ℕ
  ivLen : ℕ
  icvLen : ℕ
  privacy : Bool
  /-- `encrypt` is `_TKIP_`. -/
  tkip : Bool
  deriving DecidableEq, Repr

/-- `struct recv_frame_hdr`: the bytes from `rx_data` to `rx_tail`, and how many bytes there are
from `rx_tail` to `rx_end`. -/
structure RecvFrame where
  attrib : RxPktAttrib
  pkt : List Byte
  tailroom : ℕ
  deriving DecidableEq, Repr

/-- The size of the buffer, from the beginning of the frame on. -/
def RecvFrame.size (f : RecvFrame) : ℕ := f.pkt.length + f.tailroom

/-- The fields of `struct rtw_r_meta_data` that `core_alloc_recvframe_pkt` reads. -/
structure RMetaData where
  qos : Bool
  moreFrag : Bool
  fragNum : ℕ

/-- `alloc_sz` of `core_alloc_recvframe_pkt`. -/
def allocSz (mdata : RMetaData) (length : ℕ) : ℕ :=
  if mdata.moreFrag ∧ mdata.fragNum = 0 then
    if length ≤ 1650 then 1664 else length + 14
  else length + 14

/-- `core_alloc_recvframe_pkt`. The data of the new buffer is at the address `data`, and the buffer
may be larger than it has been asked for. -/
def coreAllocRecvframePkt (mdata : RMetaData) (data extra : ℕ) (attrib : RxPktAttrib)
    (pkt : List Byte) : RecvFrame where
  attrib := attrib
  pkt := pkt
  tailroom := allocSz mdata pkt.length + extra - (8 - data % 8) - (if mdata.qos then 6 else 0) -
    pkt.length

/-- `GetFrameType` is `WIFI_DATA_TYPE`. -/
def RecvFrame.isData (f : RecvFrame) : Bool := (f.pkt.getD 0 0).toNat / 4 % 4 = 2

/-- The broadcast address. -/
def bcAddr : EthAddr := ⟨0xff, 0xff, 0xff, 0xff, 0xff, 0xff⟩

/-- The stations, with `defrag_q` of each of them, what has been received, and what has been
delivered. -/
structure State where
  known : EthAddr → Bool
  defragQ : EthAddr → List RecvFrame
  received : List RecvFrame
  delivered : List (RecvFrame × Bool)

def init : State := ⟨fun _ => false, fun _ => [], [], []⟩

/-- `rtw_get_stainfo`, by the address that the station is found under. -/
def rtwGetStainfo (s : State) (addr : EthAddr) : Option EthAddr :=
  let addr := if addr.isMcast then bcAddr else addr
  if s.known addr then some addr else none

/-- `pdefrag_q` of `recvframe_chk_defrag`. -/
def pdefragQ (s : State) (f : RecvFrame) : Option EthAddr :=
  match rtwGetStainfo s f.attrib.ta with
  | some addr => some addr
  | none => if f.isData then none else rtwGetStainfo s bcAddr

/-- The loop of `recvframe_defrag`, with the fragments that follow. It tells whether there was a
write behind the end of the buffer; such a write is not taken into `len`. -/
def defragLoop (prframe : RecvFrame) (overrun : Bool) (curfragnum : ℕ) :
    List RecvFrame → Option (RecvFrame × Bool)
  | [] => some (prframe, overrun)
  | pnextrframe :: q =>
    if curfragnum ≠ pnextrframe.attrib.fragNum then none
    else
      let wlanhdrOffset := (pnextrframe.attrib.hdrlen + pnextrframe.attrib.ivLen) % 256
      let next := recvframePull pnextrframe.pkt wlanhdrOffset
      let pkt := recvframePullTail prframe.pkt prframe.attrib.icvLen
      let tailroom := prframe.size - pkt.length
      let fits := decide (next.length ≤ tailroom)
      let attrib := { prframe.attrib with icvLen := pnextrframe.attrib.icvLen }
      let prframe : RecvFrame :=
        if fits then ⟨attrib, pkt ++ next, tailroom - next.length⟩ else ⟨attrib, pkt, tailroom⟩
      defragLoop prframe (overrun || !fits) (curfragnum + 1) q

/-- `recvframe_defrag`, for a queue that is not empty. -/
def recvframeDefrag : List RecvFrame → Option (RecvFrame × Bool)
  | [] => none
  | prframe :: q => if (prframe.attrib.fragNum : ℕ) ≠ 0 then none else defragLoop prframe false 1 q

/-- `recvframe_chkmic` at the end of `recvframe_chk_defrag`: whether the frame is kept, and the MIC
that is taken off. -/
def checkMic (chkmic : RecvFrame → Bool) (f : RecvFrame) : Option RecvFrame :=
  if f.attrib.privacy then
    if chkmic f then
      if f.attrib.tkip then
        let pkt := recvframePullTail f.pkt 8
        some { f with pkt, tailroom := f.size - pkt.length }
      else some f
    else none
  else some f

/-- `recvframe_chk_defrag`: what is returned, and the queues. -/
def recvframeChkDefrag (chkmic : RecvFrame → Bool) (s : State) (f : RecvFrame) :
    Option (RecvFrame × Bool) × (EthAddr → List RecvFrame) :=
  let fragnum : ℕ := f.attrib.fragNum
  let (prtnframe, defragQ) : Option (RecvFrame × Bool) × (EthAddr → List RecvFrame) :=
    if f.attrib.mfrag then
      match pdefragQ s f with
      | none => (none, s.defragQ)
      | some addr =>
        -- a first fragment empties the queue
        let q := if fragnum = 0 then [] else s.defragQ addr
        (none, Function.update s.defragQ addr (q ++ [f]))
    else if fragnum ≠ 0 then
      match pdefragQ s f with
      | none => (none, s.defragQ)
      | some addr =>
        (recvframeDefrag (s.defragQ addr ++ [f]), Function.update s.defragQ addr [])
    else (some (f, false), s.defragQ)
  (prtnframe.bind fun (g, overrun) => (checkMic chkmic g).map (·, overrun), defragQ)

inductive Event where
  /-- A frame comes to `recvframe_chk_defrag`. -/
  | recv (f : RecvFrame)
  /-- The caller frees a frame that has been queued. -/
  | free (addr : EthAddr) (f : RecvFrame)
  /-- `rtw_alloc_stainfo`, which empties `defrag_q`. -/
  | allocSta (addr : EthAddr)
  /-- `rtw_free_stainfo`. -/
  | freeSta (addr : EthAddr)

def step (chkmic : RecvFrame → Bool) (s : State) : Event → Option State
  | .recv f =>
    let (prtnframe, defragQ) := recvframeChkDefrag chkmic s f
    some { s with
      defragQ
      received := s.received ++ [f]
      delivered := s.delivered ++ prtnframe.toList }
  | .free addr f =>
    some { s with defragQ := Function.update s.defragQ addr ((s.defragQ addr).erase f) }
  | .allocSta addr =>
    some { s with
      known := Function.update s.known addr true
      defragQ := Function.update s.defragQ addr [] }
  | .freeSta addr => some { s with known := Function.update s.known addr false }

/-! ## Frames in fragments -/

namespace RecvFrame

/-- The header and the IV. -/
def hdr (f : RecvFrame) : List Byte := f.pkt.take (f.attrib.hdrlen + f.attrib.ivLen)

/-- What is behind the header and the IV. -/
def rest (f : RecvFrame) : List Byte := f.pkt.drop (f.attrib.hdrlen + f.attrib.ivLen)

/-- What is between the IV and the ICV. -/
def body (f : RecvFrame) : List Byte := f.rest.take (f.rest.length - f.attrib.icvLen)

def icv (f : RecvFrame) : List Byte := f.rest.drop (f.rest.length - f.attrib.icvLen)

theorem body_append_icv (f : RecvFrame) : f.body ++ f.icv = f.rest := List.take_append_drop _ _

theorem hdr_append_rest (f : RecvFrame) : f.hdr ++ f.rest = f.pkt := List.take_append_drop _ _

theorem length_icv {f : RecvFrame} (h : f.attrib.icvLen ≤ f.rest.length) :
    f.icv.length = f.attrib.icvLen := by
  rw [icv, List.length_drop]
  omega

end RecvFrame

/-- The bodies of the fragments, between the header and IV of the first and the ICV of the last. -/
def assembled (f : RecvFrame) (fs : List RecvFrame) : List Byte :=
  f.hdr ++ ((f :: fs).flatMap RecvFrame.body ++ (fs.getLastD f).icv)

/-- The fragments are numbered from `n` on. -/
def NumberedFrom (n : ℕ) (fs : List RecvFrame) : Prop :=
  fs.map (fun f => (f.attrib.fragNum : ℕ)) = List.range' n fs.length

instance (n : ℕ) (fs : List RecvFrame) : Decidable (NumberedFrom n fs) :=
  inferInstanceAs (Decidable (_ = _))

/-- All fragments are of one transmitter, TID and sequence number. -/
def SameFrame (fs : List RecvFrame) : Prop :=
  ∀ f ∈ fs, ∀ g ∈ fs, f.attrib.ta = g.attrib.ta ∧ f.attrib.priority = g.attrib.priority ∧
    f.attrib.seqNum = g.attrib.seqNum

instance (fs : List RecvFrame) : Decidable (SameFrame fs) :=
  inferInstanceAs (Decidable (∀ f ∈ fs, ∀ g ∈ fs, _ ∧ _ ∧ _))

/-- The fragments can be put behind `used` bytes and the ICV of `prev`, in a buffer of `size` bytes:
each fragment has its header and IV, each one that another follows has its ICV, and each one ends
within the buffer. The offset of what is behind the IV has eight bits. -/
def Fits (size : ℕ) : ℕ → RecvFrame → List RecvFrame → Prop
  | _, _, [] => True
  | used, prev, f :: fs =>
    prev.attrib.icvLen ≤ prev.rest.length ∧ f.attrib.hdrlen + f.attrib.ivLen ≤ f.pkt.length ∧
      f.attrib.hdrlen + f.attrib.ivLen < 256 ∧ used + f.rest.length ≤ size ∧
      Fits size (used + f.body.length) f fs

/-- The fragments fit into the buffer of the first one. -/
def FitsFirst : List RecvFrame → Prop
  | [] => True
  | f :: fs => Fits f.size (f.hdr ++ f.body).length f fs

/-- The bytes of a frame, once the MIC is off. -/
def checked (f : RecvFrame) (pkt : List Byte) : List Byte :=
  if f.attrib.privacy ∧ f.attrib.tkip then recvframePullTail pkt 8 else pkt

/-- What is delivered has been put together, without a write behind the buffer, from fragments that
have been received: all those of one frame, in their order. -/
def Right (received : List RecvFrame) (d : RecvFrame × Bool) : Prop :=
  ∃ f fs, (f :: fs).Sublist received ∧ NumberedFrom 0 (f :: fs) ∧ SameFrame (f :: fs) ∧
    (∀ g ∈ (f :: fs).dropLast, g.attrib.mfrag = true) ∧ (fs.getLastD f).attrib.mfrag = false ∧
    d.1.pkt = checked f (assembled f fs) ∧ d.2 = false

/-- A last fragment whose number follows those of what is queued is of the same frame, and fits. -/
def StepOk (s : State) : Event → Prop
  | .recv f => f.attrib.mfrag = false → (f.attrib.fragNum : ℕ) ≠ 0 → ∀ addr ∈ pdefragQ s f,
    NumberedFrom 0 (s.defragQ addr ++ [f]) →
      SameFrame (s.defragQ addr ++ [f]) ∧ FitsFirst (s.defragQ addr ++ [f])
  | _ => True

instance (size used : ℕ) (prev : RecvFrame) (fs : List RecvFrame) :
    Decidable (Fits size used prev fs) :=
  match fs with
  | [] => isTrue trivial
  | f :: fs =>
    haveI := instDecidableFits size (used + f.body.length) f fs
    inferInstanceAs (Decidable (_ ∧ _ ∧ _ ∧ _ ∧ _))

instance (fs : List RecvFrame) : Decidable (FitsFirst fs) :=
  match fs with
  | [] => isTrue trivial
  | f :: fs => inferInstanceAs (Decidable (Fits f.size (f.hdr ++ f.body).length f fs))

instance (s : State) (e : Event) : Decidable (StepOk s e) :=
  match e with
  | .recv f => inferInstanceAs (Decidable (f.attrib.mfrag = false → (f.attrib.fragNum : ℕ) ≠ 0 →
      ∀ addr ∈ pdefragQ s f, NumberedFrom 0 (s.defragQ addr ++ [f]) →
        SameFrame (s.defragQ addr ++ [f]) ∧ FitsFirst (s.defragQ addr ++ [f])))
  | .free _ _ => isTrue trivial
  | .allocSta _ => isTrue trivial
  | .freeSta _ => isTrue trivial

/-! ## Room -/

section
variable {mdata : RMetaData} {attrib : RxPktAttrib} {pkt : List Byte} {f prev : RecvFrame}
  {fs : List RecvFrame} {size used : ℕ}

/-- The frame is never larger than its buffer, and a first fragment has room for 1650 bytes. -/
theorem le_size_coreAllocRecvframePkt (mdata : RMetaData) (data extra : ℕ) (attrib : RxPktAttrib)
    (pkt : List Byte) (hmfrag : mdata.moreFrag = true) (hnum : mdata.fragNum = 0) :
    1650 ≤ (coreAllocRecvframePkt mdata data extra attrib pkt).size := by
  have hshift : (if mdata.qos then 6 else 0) ≤ 6 := by split <;> decide
  have halloc : pkt.length ≤ 1650 ∧ allocSz mdata pkt.length = 1664 ∨
      1650 < pkt.length ∧ allocSz mdata pkt.length = pkt.length + 14 := by
    unfold allocSz
    rw [if_pos ⟨hmfrag, hnum⟩]
    split
    next h => exact .inl ⟨h, rfl⟩
    next h => exact .inr ⟨Nat.lt_of_not_le h, rfl⟩
  unfold RecvFrame.size coreAllocRecvframePkt
  dsimp only
  omega

/-- A fragment with its header, IV and ICV. -/
def Complete (f : RecvFrame) : Prop :=
  f.attrib.hdrlen + f.attrib.ivLen + f.attrib.icvLen ≤ f.pkt.length ∧
    f.attrib.hdrlen + f.attrib.ivLen < 256

theorem Complete.le_rest (h : Complete f) : f.attrib.icvLen ≤ f.rest.length := by
  have := h.1
  rw [RecvFrame.rest, List.length_drop]
  omega

/-- Complete fragments fit if all their bytes do. -/
theorem fits_of_le (hprev : prev.attrib.icvLen ≤ prev.rest.length) (hfs : ∀ f ∈ fs, Complete f)
    (hle : used + (fs.map fun f => f.rest.length).sum ≤ size) : Fits size used prev fs := by
  induction fs generalizing prev used with
  | nil => trivial
  | cons f fs ih =>
    rw [List.forall_mem_cons] at hfs
    rw [List.map_cons, List.sum_cons] at hle
    have hbody : f.body.length ≤ f.rest.length := List.length_take_le' _ _
    have hcomplete := hfs.1.1
    exact ⟨hprev, by omega, hfs.1.2, by omega, ih hfs.1.le_rest hfs.2 (by omega)⟩

/-- So fit the complete fragments of a frame of at most 1650 bytes, if the descriptor tells which
fragment is the first one. -/
theorem fitsFirst_coreAllocRecvframePkt {data extra : ℕ} (hmfrag : mdata.moreFrag = true)
    (hnum : mdata.fragNum = 0) (hf : f = coreAllocRecvframePkt mdata data extra attrib pkt)
    (hcomplete : ∀ g ∈ f :: fs, Complete g)
    (hle : f.pkt.length + (fs.map fun f => f.rest.length).sum ≤ 1650) : FitsFirst (f :: fs) := by
  rw [List.forall_mem_cons] at hcomplete
  have hsize := le_size_coreAllocRecvframePkt mdata data extra attrib pkt hmfrag hnum
  rw [← hf] at hsize
  have hbody : (f.hdr ++ f.body).length ≤ f.pkt.length := by
    rw [← f.hdr_append_rest, List.length_append, List.length_append]
    exact Nat.add_le_add_left (List.length_take_le' _ _) _
  exact fits_of_le hcomplete.1.le_rest hcomplete.2 (by omega)

end

/-! ## Putting together -/

section
variable {f prev pr out : RecvFrame} {fs q : List RecvFrame} {payload : List Byte} {n : ℕ}
  {overrun overrun' : Bool}

theorem numberedFrom_cons : NumberedFrom n (f :: fs) ↔
    (f.attrib.fragNum : ℕ) = n ∧ NumberedFrom (n + 1) fs := by
  unfold NumberedFrom
  rw [List.map_cons, List.length_cons, List.range'_succ, List.cons.injEq]

/-- The loop only ends well if the numbers follow each other. -/
theorem numberedFrom_of_defragLoop (h : defragLoop pr overrun n q = some (out, overrun')) :
    NumberedFrom n q := by
  induction q generalizing pr overrun n with
  | nil => rfl
  | cons next q ih =>
    unfold defragLoop at h
    split at h
    · cases h
    next hnum =>
      rw [not_not] at hnum
      exact numberedFrom_cons.mpr ⟨hnum.symm, ih h⟩

/-- The fragments `q` are put behind a frame that ends with the ICV of `prev`. -/
theorem defragLoop_eq (overrun : Bool) (hnum : NumberedFrom n q)
    (hpkt : pr.pkt = f.hdr ++ (payload ++ prev.icv))
    (hicv : pr.attrib.icvLen = prev.attrib.icvLen)
    (hfits : Fits pr.size (f.hdr ++ payload).length prev q) :
    ∃ out, defragLoop pr overrun n q = some (out, overrun) ∧
      out.pkt = f.hdr ++ ((payload ++ q.flatMap RecvFrame.body) ++ (q.getLastD prev).icv) ∧
      out.attrib = { pr.attrib with icvLen := (q.getLastD prev).attrib.icvLen } := by
  induction q generalizing pr prev payload n with
  | nil =>
    refine ⟨pr, rfl, ?_, ?_⟩
    · rw [hpkt]
      simp
    · rw [List.getLastD_nil, ← hicv]
  | cons next q ih =>
    obtain ⟨hcur, hnum⟩ := numberedFrom_cons.mp hnum
    obtain ⟨hprev, hhdr, hoff, hroom, hfits⟩ := hfits
    have hnext : recvframePull next.pkt ((next.attrib.hdrlen + next.attrib.ivLen) % 256) =
        next.rest := by
      rw [Nat.mod_eq_of_lt hoff]
      exact if_pos hhdr
    have htail : recvframePullTail pr.pkt pr.attrib.icvLen = f.hdr ++ payload := by
      rw [hpkt, ← List.append_assoc]
      exact recvframePullTail_append ((RecvFrame.length_icv hprev).trans hicv.symm)
    have hle : next.rest.length ≤ pr.size - (f.hdr ++ payload).length := by omega
    unfold defragLoop
    rw [if_neg (not_not.mpr hcur.symm)]
    dsimp only
    rw [hnext, htail, decide_eq_true hle, if_pos rfl, Bool.not_true, Bool.or_false]
    -- the buffer has not changed, and the frame ends with the ICV of the fragment
    let pr' : RecvFrame := ⟨{ pr.attrib with icvLen := next.attrib.icvLen },
      f.hdr ++ payload ++ next.rest, pr.size - (f.hdr ++ payload).length - next.rest.length⟩
    have hpkt' : pr'.pkt = f.hdr ++ ((payload ++ next.body) ++ next.icv) := by
      change f.hdr ++ payload ++ next.rest = _
      rw [← next.body_append_icv]
      simp only [List.append_assoc]
    have hsize : pr'.size = pr.size := by
      change (f.hdr ++ payload ++ next.rest).length + (pr.size - _ - _) = pr.size
      rw [List.length_append]
      omega
    have hused : (f.hdr ++ (payload ++ next.body)).length =
        (f.hdr ++ payload).length + next.body.length := by
      rw [← List.append_assoc, List.length_append]
    obtain ⟨out, hout, hpkt, hattrib⟩ := ih hnum hpkt' rfl (by rw [hsize, hused]; exact hfits)
    refine ⟨out, hout, ?_, ?_⟩
    · rw [hpkt, List.flatMap_cons, List.getLastD_cons, List.append_assoc payload]
    · rw [hattrib, List.getLastD_cons]

/-- `recvframe_defrag`, for fragments that fit. -/
theorem recvframeDefrag_eq (hnum : NumberedFrom 0 (f :: fs)) (hfits : FitsFirst (f :: fs)) :
    ∃ out, recvframeDefrag (f :: fs) = some (out, false) ∧ out.pkt = assembled f fs ∧
      out.attrib.privacy = f.attrib.privacy ∧ out.attrib.tkip = f.attrib.tkip := by
  obtain ⟨hzero, hnum⟩ := numberedFrom_cons.mp hnum
  have hpkt : f.pkt = f.hdr ++ (f.body ++ f.icv) := by
    rw [f.body_append_icv, f.hdr_append_rest]
  obtain ⟨out, hout, hpkt', hattrib⟩ := defragLoop_eq false hnum hpkt rfl hfits
  refine ⟨out, ?_, ?_, ?_, ?_⟩
  · rw [recvframeDefrag, if_neg (not_not.mpr hzero)]
    exact hout
  · rw [hpkt', assembled, List.flatMap_cons]
  · rw [hattrib]
  · rw [hattrib]

theorem numberedFrom_of_recvframeDefrag (h : recvframeDefrag q = some (out, overrun')) :
    NumberedFrom 0 q := by
  cases q with
  | nil => rfl
  | cons f fs =>
    obtain ⟨hzero, hloop⟩ := Option.ite_none_left_eq_some.mp h
    exact numberedFrom_cons.mpr ⟨not_not.mp hzero, numberedFrom_of_defragLoop hloop⟩

theorem checkMic_pkt {chkmic : RecvFrame → Bool} (h : checkMic chkmic pr = some out) :
    out.pkt = checked pr pr.pkt := by
  unfold checkMic at h
  unfold checked
  split at h
  next hprivacy =>
    obtain ⟨-, h⟩ := Option.ite_none_right_eq_some.mp h
    split at h
    next htkip =>
      rw [if_pos ⟨hprivacy, htkip⟩]
      exact Option.some.inj h ▸ rfl
    next htkip =>
      rw [if_neg fun h => htkip h.2]
      exact Option.some.inj h ▸ rfl
  next hprivacy =>
    rw [if_neg fun h => hprivacy h.1]
    exact Option.some.inj h ▸ rfl

end

/-! ## Runs -/

/-- What is queued has been received, in this order, and is not the last fragment of a frame. -/
structure Inv (s : State) : Prop where
  queued : ∀ addr, (s.defragQ addr).Sublist s.received
  mfrag : ∀ addr, ∀ g ∈ s.defragQ addr, g.attrib.mfrag = true
  right : ∀ d ∈ s.delivered, Right s.received d

section
variable {chkmic : RecvFrame → Bool} {s s' : State} {f : RecvFrame} {d : RecvFrame × Bool}
  {received : List RecvFrame}

theorem inv_init : Inv init := ⟨fun _ => .slnil, by simp [init], by simp [init]⟩

theorem Right.append (h : Right received d) (f : RecvFrame) : Right (received ++ [f]) d := by
  obtain ⟨g, fs, hsub, hright⟩ := h
  exact ⟨g, fs, hsub.trans (List.sublist_append_left _ _), hright⟩

/-- A frame that is no fragment is delivered as it is, but for the MIC. -/
theorem right_of_unfragmented {out : RecvFrame} (hsub : [f].Sublist received)
    (hmfrag : f.attrib.mfrag = false) (hnum : (f.attrib.fragNum : ℕ) = 0)
    (hmic : checkMic chkmic f = some out) : Right received (out, false) := by
  have hpkt : assembled f [] = f.pkt := by
    rw [assembled, List.getLastD_nil, List.flatMap_singleton, f.body_append_icv, f.hdr_append_rest]
  refine ⟨f, [], hsub, numberedFrom_cons.mpr ⟨hnum, rfl⟩, ?_, by simp, hmfrag, ?_, rfl⟩
  · intro g hg g' hg'
    rw [List.mem_singleton] at hg hg'
    rw [hg, hg']
    exact ⟨rfl, rfl, rfl⟩
  · rw [hpkt]
    exact checkMic_pkt hmic

/-- A last fragment is put together with those of the queue. -/
theorem right_of_defrag {q : List RecvFrame} {g out : RecvFrame} {overrun : Bool}
    (hsub : (q ++ [f]).Sublist received) (hq : ∀ g ∈ q, g.attrib.mfrag = true)
    (hmfrag : f.attrib.mfrag = false) (hdefrag : recvframeDefrag (q ++ [f]) = some (g, overrun))
    (hok : NumberedFrom 0 (q ++ [f]) → SameFrame (q ++ [f]) ∧ FitsFirst (q ++ [f]))
    (hmic : checkMic chkmic g = some out) : Right received (out, overrun) := by
  have hnum := numberedFrom_of_recvframeDefrag hdefrag
  obtain ⟨hsame, hfits⟩ := hok hnum
  obtain ⟨f₀, fs, hfs⟩ : ∃ f₀ fs, q ++ [f] = f₀ :: fs := by
    cases q with
    | nil => exact ⟨f, [], rfl⟩
    | cons f₀ q => exact ⟨f₀, q ++ [f], rfl⟩
  have hlast : fs.getLastD f₀ = f := by
    have h := List.getLastD_concat (a := f) (l := q) (b := f)
    rw [hfs, List.getLastD_cons] at h
    exact h
  have hdrop : (f₀ :: fs).dropLast = q := by
    rw [← hfs]
    exact List.dropLast_concat
  rw [hfs] at hnum hsame hfits hsub hdefrag
  obtain ⟨g', hg', hpkt, hprivacy, htkip⟩ := recvframeDefrag_eq hnum hfits
  obtain ⟨rfl, rfl⟩ := Prod.mk.inj (Option.some.inj (hdefrag.symm.trans hg'))
  refine ⟨f₀, fs, hsub, hnum, hsame, hdrop ▸ hq, hlast ▸ hmfrag, ?_, rfl⟩
  have hout := checkMic_pkt hmic
  unfold checked at hout ⊢
  rw [hout, hpkt, hprivacy, htkip]

/-- What `recvframe_chk_defrag` does: it drops a fragment, queues it, puts a frame together, or
returns a frame that is no fragment. -/
theorem recvframeChkDefrag_cases (chkmic : RecvFrame → Bool) (s : State) (f : RecvFrame) :
    recvframeChkDefrag chkmic s f = (none, s.defragQ) ∨
    (f.attrib.mfrag = true ∧ ∃ addr q, (q = [] ∨ q = s.defragQ addr) ∧
      recvframeChkDefrag chkmic s f = (none, Function.update s.defragQ addr (q ++ [f]))) ∨
    (f.attrib.mfrag = false ∧ (f.attrib.fragNum : ℕ) ≠ 0 ∧ ∃ addr ∈ pdefragQ s f,
      recvframeChkDefrag chkmic s f =
        ((recvframeDefrag (s.defragQ addr ++ [f])).bind fun (g, overrun) =>
          (checkMic chkmic g).map (·, overrun), Function.update s.defragQ addr [])) ∨
    (f.attrib.mfrag = false ∧ (f.attrib.fragNum : ℕ) = 0 ∧
      recvframeChkDefrag chkmic s f = ((checkMic chkmic f).map (·, false), s.defragQ)) := by
  unfold recvframeChkDefrag
  cases hmfrag : f.attrib.mfrag with
  | true =>
    cases hq : pdefragQ s f with
    | none => exact .inl rfl
    | some addr =>
      refine .inr (.inl ⟨rfl, addr, _, ?_, rfl⟩)
      split
      · exact .inl rfl
      · exact .inr rfl
  | false =>
    by_cases hnum : (f.attrib.fragNum : ℕ) = 0
    · refine .inr (.inr (.inr ⟨rfl, hnum, ?_⟩))
      simp [hnum]
    · cases hq : pdefragQ s f with
      | none => exact .inl (by simp [hnum])
      | some addr =>
        refine .inr (.inr (.inl ⟨rfl, hnum, addr, rfl, ?_⟩))
        simp [hnum]

/-- A change of one queue. -/
theorem Inv.update (h : Inv s) (addr : EthAddr) {q : List RecvFrame} (hq : q.Sublist received)
    (hreceived : s.received.Sublist received) (hmfrag : ∀ g ∈ q, g.attrib.mfrag = true)
    (a : EthAddr) : (Function.update s.defragQ addr q a).Sublist received ∧
      ∀ g ∈ Function.update s.defragQ addr q a, g.attrib.mfrag = true := by
  by_cases ha : a = addr
  · rw [ha, Function.update_self]
    exact ⟨hq, hmfrag⟩
  · rw [Function.update_of_ne ha]
    exact ⟨(h.queued a).trans hreceived, h.mfrag a⟩

theorem Inv.recv (h : Inv s) (hok : StepOk s (.recv f)) {r : Option (RecvFrame × Bool)}
    {defragQ : EthAddr → List RecvFrame} (hr : recvframeChkDefrag chkmic s f = (r, defragQ)) :
    Inv { s with
      defragQ
      received := s.received ++ [f]
      delivered := s.delivered ++ r.toList } := by
  have hreceived : s.received.Sublist (s.received ++ [f]) := List.sublist_append_left _ _
  have hright {d : RecvFrame × Bool} (hd : d ∈ s.delivered ++ r.toList)
      (hnew : r = some d → Right (s.received ++ [f]) d) : Right (s.received ++ [f]) d := by
    obtain hd | hd := List.mem_append.mp hd
    · exact (h.right d hd).append f
    · exact hnew (Option.mem_toList.mp hd)
  have hconcat {q : List RecvFrame} (hq : q.Sublist s.received) :
      (q ++ [f]).Sublist (s.received ++ [f]) := hq.append (List.Sublist.refl _)
  obtain hcase | ⟨hmfrag, addr, q, hq, hcase⟩ | ⟨hmfrag, hnum, addr, haddr, hcase⟩ |
    ⟨hmfrag, hnum, hcase⟩ := recvframeChkDefrag_cases chkmic s f <;>
    obtain ⟨rfl, rfl⟩ := Prod.mk.inj (hr.symm.trans hcase)
  · exact ⟨fun a => (h.queued a).trans hreceived, h.mfrag, fun d hd => hright hd (nomatch ·)⟩
  · have hq' : q.Sublist s.received ∧ ∀ g ∈ q, g.attrib.mfrag = true := by
      obtain rfl | rfl := hq
      · exact ⟨List.nil_sublist _, by simp⟩
      · exact ⟨h.queued addr, h.mfrag addr⟩
    have hall : ∀ g ∈ q ++ [f], g.attrib.mfrag = true := by
      intro g hg
      obtain hg | hg := List.mem_append.mp hg
      · exact hq'.2 g hg
      · exact List.mem_singleton.mp hg ▸ hmfrag
    have hupd := h.update addr (hconcat hq'.1) hreceived hall
    exact ⟨fun a => (hupd a).1, fun a => (hupd a).2, fun d hd => hright hd (nomatch ·)⟩
  · have hupd := h.update addr (List.nil_sublist (s.received ++ [f])) hreceived (by simp)
    refine ⟨fun a => (hupd a).1, fun a => (hupd a).2, fun d hd => hright hd fun hsome => ?_⟩
    obtain ⟨⟨g, overrun⟩, hdefrag, hchecked⟩ := Option.bind_eq_some_iff.mp hsome
    obtain ⟨out, hmic, rfl⟩ := Option.map_eq_some_iff.mp hchecked
    exact right_of_defrag (hconcat (h.queued addr)) (h.mfrag addr) hmfrag hdefrag
      (hok hmfrag hnum addr haddr) hmic
  · refine ⟨fun a => (h.queued a).trans hreceived, h.mfrag, fun d hd => hright hd fun hsome => ?_⟩
    obtain ⟨out, hmic, rfl⟩ := Option.map_eq_some_iff.mp hsome
    exact right_of_unfragmented (List.sublist_append_right _ _) hmfrag hnum hmic

theorem Inv.step (h : Inv s) {e : Event} (hok : StepOk s e) (hs : step chkmic s e = some s') :
    Inv s' := by
  cases e with
  | recv f =>
    obtain rfl := Option.some.inj hs
    exact h.recv hok rfl
  | free addr f =>
    obtain rfl := Option.some.inj hs
    have hsub : ((s.defragQ addr).erase f).Sublist s.received :=
      List.erase_sublist.trans (h.queued addr)
    have hupd := h.update addr hsub (List.Sublist.refl _) fun g hg =>
      h.mfrag addr g (List.mem_of_mem_erase hg)
    exact ⟨fun a => (hupd a).1, fun a => (hupd a).2, h.right⟩
  | allocSta addr =>
    obtain rfl := Option.some.inj hs
    have hupd := h.update addr (List.nil_sublist _) (List.Sublist.refl _) (by simp)
    exact ⟨fun a => (hupd a).1, fun a => (hupd a).2, h.right⟩
  | freeSta addr =>
    obtain rfl := Option.some.inj hs
    exact ⟨h.queued, h.mfrag, h.right⟩

end

end Rtl88x2cu.Core.Defrag
