import Mathlib.Algebra.Order.Ring.Nat
import Mathlib.Data.List.GetD
import Rtl88x2cu.Lib.Gather

/-!
# The pieces of a transmit request

`fill_txreq_list_skb` (`core/rtw_xmit.c`) appends to a request the pieces of a socket buffer that
hold a range of the packet. A socket buffer has a linear head, page fragments, and a list of further
ones with heads and page fragments of their own; with too many parts it is made linear first.
`fill_txreq_pkt_perfrag_txos` makes a request of every fragment of a frame: a head, a range of the
packet, and a tail.

* `cut` (`Lib/Gather.lean`) is what the pieces are to be.
* `foldl_fillSkb` is the walk through the parts, in which offset and size are threaded from one part
  to the next one.
* `txreq_ok` says what is appended by one call and by the loop over the fragments, as long as the
  16 bits of the length of a piece are enough.
-/

namespace Rtl88x2cu.Core.FillTxreq

open Bytes Footprint Gather

/-! ## Model -/

/-- `struct rtw_pkt_buf_list`. -/
structure PktBuf where
  virAddr : ℕ
  length : BitVec 16
  deriving DecidableEq, Repr

/-- `struct rtw_xmit_req`; `pkt_list` are the entries that have been written. -/
structure XmitReq where
  pktCnt : BitVec 8
  totalLen : BitVec 32
  pktList : List PktBuf
  deriving DecidableEq, Repr

/-- `PKT_LIST_APPEND`. -/
def pktListAppend (txreq : XmitReq) (addr len : ℕ) : XmitReq :=
  if len = 0 then txreq
  else
    { pktList := txreq.pktList ++ [⟨addr, BitVec.ofNat 16 len⟩]
      pktCnt := txreq.pktCnt + 1
      totalLen := txreq.totalLen + BitVec.ofNat 32 len }

/-- The linear head and the page fragments of a `struct sk_buff`. -/
structure Frags where
  head : Extent
  frags : List Extent

/-- A `struct sk_buff` with its fragment list. -/
structure SkBuff extends Frags where
  fragList : List Frags

namespace SkBuff

variable (skb : SkBuff)

/-- The buffer itself and those of its fragment list. -/
def bufs : List Frags := skb.toFrags :: skb.fragList

/-- All parts of a packet. -/
def parts : List Extent := skb.bufs.flatMap fun buf => buf.head :: buf.frags

/-- `skb->len`. -/
def len : ℕ := total skb.parts

end SkBuff

/-- What `_fill_txreq_list_skb` works on. The offset is signed; it is not negative here. -/
structure FillSt where
  txreq : XmitReq
  remSz : ℕ
  offset : ℕ

/-- `_fill_txreq_list_skb`, the head. -/
def fillHead (st : FillSt) (head : Extent) : FillSt :=
  if head.len > st.offset then
    let curFragRem := min (head.len - st.offset) st.remSz
    ⟨pktListAppend st.txreq (head.off + st.offset) curFragRem, st.remSz - curFragRem, 0⟩
  else { st with offset := st.offset - head.len }

/-- `_fill_txreq_list_skb`, the loop over the page fragments. -/
def fillFrags : List Extent → FillSt → FillSt
  | [], st => st
  | frag :: frags, st =>
    if st.offset < frag.len then
      let curFragRem := frag.len - st.offset
      if st.remSz < curFragRem then
        -- `break`, with the offset as it is
        { st with txreq := pktListAppend st.txreq (frag.off + st.offset) st.remSz, remSz := 0 }
      else
        fillFrags frags
          ⟨pktListAppend st.txreq (frag.off + st.offset) curFragRem, st.remSz - curFragRem, 0⟩
    else fillFrags frags { st with offset := st.offset - frag.len }

/-- `_fill_txreq_list_skb`. -/
def fillSkb (st : FillSt) (buf : Frags) : FillSt := fillFrags buf.frags (fillHead st buf.head)

/-- `skb_total_frag_nr`. -/
def skbTotalFragNr (skb : SkBuff) : ℕ :=
  skb.fragList.foldl (fun nr buf => nr + (1 + buf.frags.length)) (1 + skb.frags.length)

/-- `NUM_PKT_LIST_PER_TXREQ`. -/
def numPktListPerTxreq : ℕ := 8

/-- The memory and a socket buffer in it. -/
abbrev Packet := Mem × SkBuff

/-- The bytes of a packet. -/
def Packet.bytes (w : Packet) : List Byte := (addrs w.2.parts).map w.1

/-- What `rtw_skb_linearize`, which is the kernel's `skb_linearize`, does when it succeeds. -/
structure Linearizes (rtwSkbLinearize : Packet → Packet) : Prop where
  frags : ∀ w, (rtwSkbLinearize w).2.frags = []
  fragList : ∀ w, (rtwSkbLinearize w).2.fragList = []
  bytes : ∀ w, (rtwSkbLinearize w).bytes = w.bytes

section

variable (rtwSkbLinearize : Packet → Packet)

/-- `fill_txreq_list_skb`, the check of the number of parts. -/
def walked (w : Packet) : Packet :=
  if skbTotalFragNr w.2 > numPktListPerTxreq - 2 then rtwSkbLinearize w else w

/-- `fill_txreq_list_skb`. -/
def fillTxreqListSkb (w : Packet) (txreq : XmitReq) (reqSz offset : ℕ) : Packet × XmitReq :=
  let w := walked rtwSkbLinearize w
  (w, (w.2.bufs.foldl fillSkb ⟨txreq, reqSz, offset⟩).txreq)

/-- `_TKIP_`. -/
def tkip : ℕ := 2

/-- `RTW_SZ_LLC`. -/
def rtwSzLlc : ℕ := 8

/-- `RTW_TKIP_MIC_LEN`. -/
def rtwTkipMicLen : ℕ := 8

/-- The fields of `struct pkt_attrib` that the lengths depend on. -/
structure PktAttrib where
  hdrlen : ℕ
  amsdu : Bool
  encrypt : ℕ
  ivLen : ℕ
  icvLen : ℕ
  bswenc : Bool
  pktHdrlen : ℕ

/-- `head_sz`. -/
def headSz (attrib : PktAttrib) : ℕ :=
  attrib.hdrlen + (if attrib.amsdu then 0 else rtwSzLlc) +
    if attrib.encrypt ≠ 0 then attrib.ivLen else 0

/-- `tail_sz`. -/
def tailSz (attrib : PktAttrib) : ℕ :=
  if attrib.encrypt ≠ 0 then
    (if attrib.encrypt = tkip then rtwTkipMicLen else 0) +
      if attrib.bswenc then attrib.icvLen else 0
  else 0

/-- What the loop over the fragments works on. -/
structure LoopSt where
  packet : Packet
  head : ℕ
  tail : ℕ
  payloadOffset : ℕ
  txreqs : List XmitReq

/-- The head of a request, which has no LLC behind the first fragment. -/
def fillTxreqHead (attrib : PktAttrib) (head idx : ℕ) : XmitReq :=
  let length := BitVec.ofNat 16 (headSz attrib)
  let length := if idx ≠ 0 then length - BitVec.ofNat 16 rtwSzLlc else length
  ⟨1, length.setWidth 32, [⟨head, length⟩]⟩

/-- `payload_sz`. -/
def payloadSz (len payloadOffset fragPerfr wlFrags idx : ℕ) : ℕ :=
  if idx = wlFrags - 1 then (len + 2 ^ 32 - payloadOffset) % 2 ^ 32
  else if idx = 0 then (fragPerfr + 2 ^ 32 - rtwSzLlc) % 2 ^ 32
  else fragPerfr

/-- `wlan_tail`; only the last fragment has a MIC. -/
def wlanTail (attrib : PktAttrib) (wlFrags idx : ℕ) : ℕ :=
  if tailSz attrib = 0 then 0
  else if attrib.encrypt = tkip ∧ idx ≠ wlFrags - 1 then tailSz attrib - rtwTkipMicLen
  else tailSz attrib

/-- The tail of a request, if there is one. -/
def fillTxreqTail (attrib : PktAttrib) (txreq : XmitReq) (tail wlFrags idx : ℕ) : XmitReq :=
  let wlanTail := wlanTail attrib wlFrags idx
  if wlanTail = 0 then txreq
  else
    { pktList := txreq.pktList ++ [⟨tail, BitVec.ofNat 16 wlanTail⟩]
      pktCnt := txreq.pktCnt + 1
      totalLen := txreq.totalLen + (BitVec.ofNat 16 wlanTail).setWidth 32 }

/-- One pass of the loop of `fill_txreq_pkt_perfrag_txos`. -/
def fillTxreqFrag (attrib : PktAttrib) (fragPerfr wlFrags : ℕ) (st : LoopSt) (idx : ℕ) : LoopSt :=
  let txreq := fillTxreqHead attrib st.head idx
  let head := st.head + txreq.totalLen.toNat
  let payloadSz := payloadSz st.packet.2.len st.payloadOffset fragPerfr wlFrags idx
  let (packet, txreq) := fillTxreqListSkb rtwSkbLinearize st.packet txreq payloadSz st.payloadOffset
  { packet
    head
    tail := st.tail + (BitVec.ofNat 16 (wlanTail attrib wlFrags idx)).toNat
    payloadOffset := (st.payloadOffset + payloadSz) % 2 ^ 32
    txreqs := st.txreqs ++ [fillTxreqTail attrib txreq st.tail wlFrags idx] }

/-- `fill_txreq_pkt_perfrag_txos`, the loop over the fragments. -/
def fillTxreqPktPerfragTxos (attrib : PktAttrib) (fragPerfr wlFrags : ℕ) (packet : Packet)
    (head tail : ℕ) : LoopSt :=
  (List.range wlFrags).foldl (fillTxreqFrag rtwSkbLinearize attrib fragPerfr wlFrags)
    ⟨packet, head, tail, attrib.pktHdrlen, []⟩

end

/-! ## The walk through the parts -/

/-- `PKT_LIST_APPEND` of an extent. -/
def append (txreq : XmitReq) (e : Extent) : XmitReq := pktListAppend txreq e.off e.len

theorem pktListAppend_zero (txreq : XmitReq) (addr : ℕ) : pktListAppend txreq addr 0 = txreq :=
  if_pos rfl

section Walk

variable {rest : List Extent}

/-- The pieces that have been appended on the way from `st` to `st'`, and what is still to be cut out
of the parts behind. -/
def Threads (st : FillSt) (parts : List Extent) (st' : FillSt) (rest : List Extent) : Prop :=
  ∃ new : List Extent, st'.txreq = new.foldl append st.txreq ∧
    cut parts st.offset st.remSz = new ++ cut rest st'.offset st'.remSz

theorem Threads.refl (st : FillSt) (parts : List Extent) : Threads st parts st parts :=
  ⟨[], rfl, rfl⟩

theorem Threads.trans {st st' st'' : FillSt} {parts parts' : List Extent}
    (h : Threads st parts st' parts') (h' : Threads st' parts' st'' rest) :
    Threads st parts st'' rest := by
  obtain ⟨new, hreq, hcut⟩ := h
  obtain ⟨new', hreq', hcut'⟩ := h'
  refine ⟨new ++ new', ?_, ?_⟩
  · rw [hreq', hreq, List.foldl_append]
  · rw [hcut, hcut', List.append_assoc]

/-- Nothing is left: no part matters any more. -/
theorem threads_done {st : FillSt} (h : st.remSz = 0) (parts : List Extent) :
    Threads st parts st rest :=
  ⟨[], rfl, by rw [h, cut_zero, cut_zero, List.append_nil]⟩

/-- The part is in front of the range. -/
theorem threads_skip {st : FillSt} {e : Extent} (h : e.len ≤ st.offset) :
    Threads st (e :: rest) { st with offset := st.offset - e.len } rest :=
  ⟨[], rfl, cut_cons_of_le h⟩

/-- A piece of the part is appended. -/
theorem threads_append (rest : List Extent) {st : FillSt} {e : Extent} (h : st.offset < e.len) (offset : ℕ)
    (hoff : e.len - st.offset ≤ st.remSz → offset = 0) :
    Threads st (e :: rest)
      ⟨pktListAppend st.txreq (e.off + st.offset) (min (e.len - st.offset) st.remSz),
        st.remSz - min (e.len - st.offset) st.remSz, offset⟩ rest := by
  rcases Nat.eq_zero_or_pos st.remSz with hrem | hrem
  · -- nothing is left to be appended
    refine ⟨[], ?_, ?_⟩
    · rw [hrem, Nat.min_zero, pktListAppend_zero]
      rfl
    · rw [hrem, cut_zero, Nat.zero_sub, cut_zero]
      rfl
  · refine ⟨[⟨e.off + st.offset, min (e.len - st.offset) st.remSz⟩], rfl, ?_⟩
    rw [cut_cons_of_lt h hrem]
    by_cases hle : e.len - st.offset ≤ st.remSz
    · rw [Nat.min_eq_left hle, hoff hle]
      rfl
    · have hle : st.remSz ≤ e.len - st.offset := by omega
      rw [Nat.min_eq_right hle, Nat.sub_eq_zero_of_le hle, Nat.sub_self, cut_zero, cut_zero]
      rfl

theorem fillHead_threads (st : FillSt) (head : Extent) :
    Threads st (head :: rest) (fillHead st head) rest := by
  rw [fillHead]
  split
  case isTrue h => exact threads_append rest h 0 fun _ => rfl
  case isFalse h => exact threads_skip (Nat.not_lt.mp h)

theorem fillFrags_threads (frags : List Extent) (st : FillSt) :
    Threads st (frags ++ rest) (fillFrags frags st) rest := by
  induction frags generalizing st with
  | nil => exact Threads.refl st rest
  | cons frag frags ih =>
    rw [fillFrags]
    split
    case isTrue h =>
      dsimp only
      split
      case isTrue hrem =>
        have happ := threads_append (frags ++ rest) h st.offset (by omega)
        rw [Nat.min_eq_right (Nat.le_of_lt hrem), Nat.sub_self] at happ
        exact happ.trans (threads_done rfl _)
      case isFalse hrem =>
        have happ := threads_append (frags ++ rest) h 0 fun _ => rfl
        rw [Nat.min_eq_left (Nat.not_lt.mp hrem)] at happ
        exact happ.trans (ih _)
    case isFalse h => exact (threads_skip (Nat.not_lt.mp h)).trans (ih _)

theorem fillSkb_threads (st : FillSt) (buf : Frags) :
    Threads st (buf.head :: buf.frags ++ rest) (fillSkb st buf) rest :=
  (fillHead_threads st buf.head).trans (fillFrags_threads buf.frags _)

/-- The walk through all buffers appends what is cut out of their parts. -/
theorem foldl_fillSkb_threads (rest : List Extent) (bufs : List Frags) (st : FillSt) :
    Threads st ((bufs.flatMap fun buf => buf.head :: buf.frags) ++ rest) (bufs.foldl fillSkb st)
      rest := by
  induction bufs generalizing st with
  | nil => exact Threads.refl st rest
  | cons buf bufs ih =>
    rw [List.flatMap_cons, List.append_assoc]
    exact (fillSkb_threads st buf).trans (ih _)

theorem foldl_fillSkb (skb : SkBuff) (st : FillSt) :
    (skb.bufs.foldl fillSkb st).txreq = (cut skb.parts st.offset st.remSz).foldl append st.txreq := by
  obtain ⟨new, hreq, hcut⟩ := foldl_fillSkb_threads [] skb.bufs st
  rw [List.append_nil, cut, List.append_nil] at hcut
  rw [hreq, ← hcut]
  rfl

end Walk

/-! ## What is appended -/

section Append

variable {new : List Extent}

/-- An entry for an extent. -/
def ofExtent (e : Extent) : PktBuf := ⟨e.off, BitVec.ofNat 16 e.len⟩

theorem foldl_append (hpos : ∀ e ∈ new, 0 < e.len) (txreq : XmitReq) :
    new.foldl append txreq =
      ⟨txreq.pktCnt + BitVec.ofNat 8 new.length, txreq.totalLen + BitVec.ofNat 32 (total new),
        txreq.pktList ++ new.map ofExtent⟩ := by
  induction new generalizing txreq with
  | nil => simp
  | cons e new ih =>
    rw [List.forall_mem_cons] at hpos
    rw [List.foldl_cons, ih hpos.2, append, pktListAppend, if_neg (by omega)]
    simp only [List.length_cons, total_cons, BitVec.ofNat_add, List.map_cons, List.append_assoc,
      List.singleton_append, XmitReq.mk.injEq]
    refine ⟨?_, BitVec.add_assoc _ _ _, rfl⟩
    rw [BitVec.add_assoc, BitVec.add_comm 1]
    rfl

/-- The addresses of a piece. -/
def PktBuf.addrs (p : PktBuf) : List ℕ := List.range' p.virAddr p.length.toNat

theorem flatMap_addrs (h : ∀ e ∈ new, e.len < 2 ^ 16) :
    (new.map ofExtent).flatMap PktBuf.addrs = addrs new := by
  rw [List.flatMap_map, Gather.addrs]
  refine List.flatMap_congr fun e he => ?_
  rw [PktBuf.addrs, ofExtent, BitVec.toNat_ofNat, Nat.mod_eq_of_lt (h e he)]

end Append

/-! ## The socket buffer that is walked through -/

section Walked

variable {rtwSkbLinearize : Packet → Packet}

theorem skbTotalFragNr_eq (skb : SkBuff) : skbTotalFragNr skb = skb.parts.length := by
  have hfold : ∀ (bufs : List Frags) (nr : ℕ),
      bufs.foldl (fun nr buf => nr + (1 + buf.frags.length)) nr =
        nr + (bufs.flatMap fun buf => buf.head :: buf.frags).length := by
    intro bufs nr
    induction bufs generalizing nr with
    | nil => rfl
    | cons buf bufs ih =>
      rw [List.foldl_cons, ih, List.flatMap_cons, List.length_append, List.length_cons]
      omega
  rw [skbTotalFragNr, hfold, SkBuff.parts, SkBuff.bufs, List.flatMap_cons, List.length_append,
    List.length_cons]
  omega

theorem length_bytes (w : Packet) : w.bytes.length = w.2.len := by
  rw [Packet.bytes, List.length_map, length_addrs, SkBuff.len]

/-- There are not too many parts any more. -/
theorem length_parts_walked (h : Linearizes rtwSkbLinearize) (w : Packet) :
    (walked rtwSkbLinearize w).2.parts.length ≤ numPktListPerTxreq - 2 := by
  rw [walked]
  split
  case isTrue =>
    rw [SkBuff.parts, SkBuff.bufs, h.fragList, List.flatMap_singleton, h.frags]
    change 1 ≤ 6
    decide
  case isFalse hle =>
    rw [← skbTotalFragNr_eq]
    exact Nat.not_lt.mp hle

theorem bytes_walked (h : Linearizes rtwSkbLinearize) (w : Packet) :
    (walked rtwSkbLinearize w).bytes = w.bytes := by
  rw [walked]
  split
  · exact h.bytes w
  · rfl

theorem len_walked (h : Linearizes rtwSkbLinearize) (w : Packet) :
    (walked rtwSkbLinearize w).2.len = w.2.len := by
  rw [← length_bytes, bytes_walked h, length_bytes]

/-- It is made linear once at most. -/
theorem walked_walked (h : Linearizes rtwSkbLinearize) (w : Packet) :
    walked rtwSkbLinearize (walked rtwSkbLinearize w) = walked rtwSkbLinearize w := by
  apply if_neg
  rw [skbTotalFragNr_eq]
  exact Nat.not_lt.mpr (length_parts_walked h w)

end Walked

/-! ## One call -/

section Fill

variable {rtwSkbLinearize : Packet → Packet}

/-- From `txreq` to `txreq'` the pieces `new` are appended, and they hold the bytes of the range of
the packet `w`; their addresses are those of the parts of `w'`. -/
structure Fills (w w' : Packet) (off size : ℕ) (txreq txreq' : XmitReq) (new : List PktBuf) :
    Prop where
  pktList : txreq'.pktList = txreq.pktList ++ new
  nonempty : ∀ p ∈ new, p.length ≠ 0
  addrs : new.flatMap PktBuf.addrs = ((addrs w'.2.parts).drop off).take size
  bytes : (new.flatMap PktBuf.addrs).map w'.1 = (w.bytes.drop off).take size
  pktCnt : txreq'.pktCnt = txreq.pktCnt + BitVec.ofNat 8 new.length
  totalLen : txreq'.totalLen = txreq.totalLen + BitVec.ofNat 32 (min size (w.2.len - off))
  length : new.length ≤ numPktListPerTxreq - 2

theorem fillTxreqListSkb_fills (h : Linearizes rtwSkbLinearize) (w : Packet) (txreq : XmitReq)
    {off size : ℕ} (hbelow : Below (2 ^ 16) (walked rtwSkbLinearize w).2.parts off size) :
    Fills w (walked rtwSkbLinearize w) off size txreq
      (fillTxreqListSkb rtwSkbLinearize w txreq size off).2
      ((cut (walked rtwSkbLinearize w).2.parts off size).map ofExtent) := by
  have hreq : (fillTxreqListSkb rtwSkbLinearize w txreq size off).2 = _ :=
    (foldl_fillSkb (walked rtwSkbLinearize w).2 _).trans
      (foldl_append (fun _ => len_pos_of_mem_cut) txreq)
  have haddrs := flatMap_addrs fun e => hbelow.len_lt (e := e)
  rw [addrs_cut] at haddrs
  constructor
  case pktList => rw [hreq]
  case nonempty =>
    rw [List.forall_mem_map]
    intro e he hzero
    have hlt := hbelow.len_lt he
    have hpos := len_pos_of_mem_cut he
    have hlen := congrArg BitVec.toNat hzero
    rw [ofExtent, BitVec.toNat_ofNat, Nat.mod_eq_of_lt hlt] at hlen
    exact hpos.ne' hlen
  case addrs => exact haddrs
  case bytes => rw [haddrs, ← bytes_walked h, Packet.bytes, List.map_take, List.map_drop]
  case pktCnt => rw [hreq, List.length_map]
  case totalLen =>
    rw [hreq, total_cut]
    exact congrArg (fun len => _ + BitVec.ofNat 32 (min size (len - off))) (len_walked h w)
  case length =>
    rw [List.length_map]
    exact (length_cut_le _ _ _).trans (length_parts_walked h w)

end Fill

/-! ## The loop over the fragments -/

section Loop

variable {rtwSkbLinearize : Packet → Packet} {attrib : PktAttrib} {fragPerfr wlFrags : ℕ}

/-- A request with a head, the pieces `payload`, and a tail or none. -/
structure ReqOk (txreq : XmitReq) (payload : List PktBuf) : Prop where
  pktList : ∃ head tail, txreq.pktList = head :: (payload ++ tail) ∧ tail.length ≤ 1
  nonempty : ∀ p ∈ payload, p.length ≠ 0
  pktCnt : txreq.pktCnt.toNat = txreq.pktList.length
  length : txreq.pktList.length ≤ numPktListPerTxreq

/-- The pieces are put between a head and a tail. -/
theorem Fills.reqOk {w w' : Packet} {off size head tail idx : ℕ} {txreq : XmitReq}
    {payload : List PktBuf}
    (h : Fills w w' off size (fillTxreqHead attrib head idx) txreq payload) :
    ReqOk (fillTxreqTail attrib txreq tail wlFrags idx) payload := by
  have hlen : payload.length ≤ 6 := h.length
  obtain ⟨p, hp⟩ : ∃ p, (fillTxreqHead attrib head idx).pktList = [p] := ⟨_, rfl⟩
  have hlist : txreq.pktList = p :: payload := by
    rw [h.pktList, hp, List.singleton_append]
  have hcnt : txreq.pktCnt = 1 + BitVec.ofNat 8 payload.length := h.pktCnt
  have hcnt' : txreq.pktCnt.toNat = 1 + payload.length := by
    rw [hcnt, BitVec.toNat_add, BitVec.toNat_ofNat]
    change (1 + _) % _ = _
    omega
  rw [fillTxreqTail]
  split
  · constructor
    case pktList => exact ⟨p, [], by rw [hlist, List.append_nil], Nat.zero_le 1⟩
    case nonempty => exact h.nonempty
    case pktCnt => rw [hlist, hcnt', List.length_cons, Nat.add_comm]
    case length =>
      rw [hlist, List.length_cons, numPktListPerTxreq]
      omega
  · let t : PktBuf := ⟨tail, BitVec.ofNat 16 (wlanTail attrib wlFrags idx)⟩
    constructor
    case pktList => exact ⟨p, [t], by rw [hlist, List.cons_append], Nat.le_refl 1⟩
    case nonempty => exact h.nonempty
    case pktCnt =>
      rw [hlist, List.length_append, List.length_cons, BitVec.toNat_add, hcnt']
      change (1 + _ + 1) % 256 = _ + 1 + 1
      omega
    case length =>
      rw [hlist, List.length_append, List.length_cons, numPktListPerTxreq]
      change _ + 1 + 1 ≤ 8
      omega

/-- Where the payload of a fragment begins in the packet. -/
def payloadStart (attrib : PktAttrib) (fragPerfr idx : ℕ) : ℕ :=
  if idx = 0 then attrib.pktHdrlen else attrib.pktHdrlen + idx * fragPerfr - rtwSzLlc

/-- What the loop has done before the pass `idx`: the requests hold the payload up to there. -/
structure LoopInv (rtwSkbLinearize : Packet → Packet) (attrib : PktAttrib) (w : Packet)
    (covered : ℕ) (st : LoopSt) (payloads : List (List PktBuf)) : Prop where
  packet : walked rtwSkbLinearize st.packet = walked rtwSkbLinearize w
  len : st.packet.2.len = w.2.len
  reqs : List.Forall₂ ReqOk st.txreqs payloads
  addrs : payloads.flatten.flatMap PktBuf.addrs =
    ((Gather.addrs (walked rtwSkbLinearize w).2.parts).drop attrib.pktHdrlen).take covered

theorem LoopInv.init (w : Packet) (head tail : ℕ) :
    LoopInv rtwSkbLinearize attrib w 0 ⟨w, head, tail, attrib.pktHdrlen, []⟩ [] where
  packet := rfl
  len := rfl
  reqs := .nil
  addrs := by rw [List.take_zero]; rfl

/-- One pass goes on where the last one has ended. -/
theorem LoopInv.step (h : Linearizes rtwSkbLinearize) {w : Packet} {covered : ℕ} {st : LoopSt}
    {payloads : List (List PktBuf)} (hinv : LoopInv rtwSkbLinearize attrib w covered st payloads)
    (hoff : st.payloadOffset = attrib.pktHdrlen + covered) (idx : ℕ)
    (hbelow : Below (2 ^ 16) (walked rtwSkbLinearize w).2.parts st.payloadOffset
      (payloadSz w.2.len st.payloadOffset fragPerfr wlFrags idx)) :
    ∃ payload, LoopInv rtwSkbLinearize attrib w
      (covered + payloadSz w.2.len st.payloadOffset fragPerfr wlFrags idx)
      (fillTxreqFrag rtwSkbLinearize attrib fragPerfr wlFrags st idx) (payloads ++ [payload]) := by
  rw [← hinv.packet] at hbelow
  rw [← hinv.len] at hbelow ⊢
  generalize hsz : payloadSz st.packet.2.len st.payloadOffset fragPerfr wlFrags idx = size
    at hbelow ⊢
  obtain ⟨payload, hfills⟩ : ∃ payload, Fills st.packet (walked rtwSkbLinearize st.packet)
      st.payloadOffset size (fillTxreqHead attrib st.head idx)
      (fillTxreqListSkb rtwSkbLinearize st.packet (fillTxreqHead attrib st.head idx) size
        st.payloadOffset).2 payload :=
    ⟨_, fillTxreqListSkb_fills h st.packet _ hbelow⟩
  refine ⟨payload, ?_⟩
  rw [fillTxreqFrag, hsz]
  constructor
  case packet => exact (walked_walked h st.packet).trans hinv.packet
  case len => exact (len_walked h st.packet).trans hinv.len
  case reqs =>
    apply List.rel_append hinv.reqs
    exact .cons hfills.reqOk .nil
  case addrs =>
    rw [List.flatten_append, List.flatMap_append, hinv.addrs, List.flatten_singleton, hfills.addrs,
      hinv.packet, hoff, ← List.drop_drop, ← List.take_add]

/-- The ranges of two fragments are adjacent. -/
theorem payloadStart_succ (attrib : PktAttrib) (len : ℕ) {idx : ℕ} (hfrag : rtwSzLlc ≤ fragPerfr)
    (hlt : fragPerfr < 2 ^ 31) (hidx : idx + 1 < wlFrags) (off : ℕ) :
    payloadStart attrib fragPerfr (idx + 1) =
      payloadStart attrib fragPerfr idx + payloadSz len off fragPerfr wlFrags idx := by
  rw [payloadSz, if_neg (by omega), payloadStart, payloadStart, if_neg (by omega), Nat.succ_mul]
  rw [rtwSzLlc] at hfrag ⊢
  split
  case isTrue h0 =>
    subst h0
    omega
  case isFalse h0 =>
    have hle : fragPerfr ≤ idx * fragPerfr := Nat.le_mul_of_pos_left _ (by omega)
    omega

/-- The range of the last fragment reaches to the end of the packet. -/
theorem le_payloadSz_last (fragPerfr wlFrags : ℕ) {len : ℕ} (hlen : len < 2 ^ 32) (off : ℕ) :
    len - off ≤ payloadSz len off fragPerfr wlFrags (wlFrags - 1) := by
  rw [payloadSz, if_pos rfl]
  omega

theorem payloadStart_lt {idx : ℕ} (hidx : idx < wlFrags)
    (hlt : attrib.pktHdrlen + wlFrags * fragPerfr < 2 ^ 31) :
    payloadStart attrib fragPerfr idx < 2 ^ 31 := by
  have hle : idx * fragPerfr ≤ wlFrags * fragPerfr := Nat.mul_le_mul_right _ hidx.le
  rw [payloadStart]
  split <;> omega

theorem pktHdrlen_le_payloadStart (attrib : PktAttrib) (hfrag : rtwSzLlc ≤ fragPerfr) (idx : ℕ) :
    attrib.pktHdrlen ≤ payloadStart attrib fragPerfr idx := by
  rw [payloadStart]
  split
  · exact Nat.le_refl _
  case isFalse h0 =>
    have hle : fragPerfr ≤ idx * fragPerfr := Nat.le_mul_of_pos_left _ (by omega)
    omega

/-- A request of every fragment. -/
theorem length_txreqs_foldl (idxs : List ℕ) (st : LoopSt) :
    (idxs.foldl (fillTxreqFrag rtwSkbLinearize attrib fragPerfr wlFrags) st).txreqs.length =
      st.txreqs.length + idxs.length := by
  induction idxs generalizing st with
  | nil => rfl
  | cons idx idxs ih =>
    have hone : (fillTxreqFrag rtwSkbLinearize attrib fragPerfr wlFrags st idx).txreqs.length =
        st.txreqs.length + 1 := List.length_append
    rw [List.foldl_cons, ih, hone, List.length_cons]
    omega

/-- The passes in front of the last one. -/
theorem loop_prefix (h : Linearizes rtwSkbLinearize) (w : Packet) (head tail : ℕ)
    (hfrag : rtwSzLlc ≤ fragPerfr) (hlt : attrib.pktHdrlen + wlFrags * fragPerfr < 2 ^ 31)
    (hbelow : ∀ idx < wlFrags, Below (2 ^ 16) (walked rtwSkbLinearize w).2.parts
      (payloadStart attrib fragPerfr idx)
      (payloadSz w.2.len (payloadStart attrib fragPerfr idx) fragPerfr wlFrags idx))
    {k : ℕ} (hk : k < wlFrags) :
    ∃ st payloads,
      (List.range k).foldl (fillTxreqFrag rtwSkbLinearize attrib fragPerfr wlFrags)
        ⟨w, head, tail, attrib.pktHdrlen, []⟩ = st ∧
      st.payloadOffset = payloadStart attrib fragPerfr k ∧
      LoopInv rtwSkbLinearize attrib w (payloadStart attrib fragPerfr k - attrib.pktHdrlen) st
        payloads := by
  induction k with
  | zero =>
    refine ⟨_, [], rfl, rfl, ?_⟩
    rw [payloadStart, if_pos rfl, Nat.sub_self]
    exact LoopInv.init w head tail
  | succ k ih =>
    obtain ⟨st, payloads, hst, hoff, hinv⟩ := ih (by omega)
    have hstart := pktHdrlen_le_payloadStart attrib hfrag k
    have hone : fragPerfr ≤ wlFrags * fragPerfr := Nat.le_mul_of_pos_left _ (by omega)
    have hsucc := payloadStart_succ attrib w.2.len hfrag (by omega) hk
      (payloadStart attrib fragPerfr k)
    obtain ⟨payload, hstep⟩ := hinv.step h (by omega) k (hoff ▸ hbelow k (by omega))
    refine ⟨fillTxreqFrag rtwSkbLinearize attrib fragPerfr wlFrags st k, payloads ++ [payload],
      ?_, ?_, ?_⟩
    · rw [List.range_succ, List.foldl_append, hst]
      rfl
    · have hlt' := payloadStart_lt hk hlt
      change (st.payloadOffset + payloadSz st.packet.2.len st.payloadOffset fragPerfr wlFrags k) %
        2 ^ 32 = _
      rw [hoff, hinv.len, ← hsucc, Nat.mod_eq_of_lt (by omega)]
    · rw [hoff] at hstep
      convert hstep using 1
      omega

end Loop

section Main

variable {rtwSkbLinearize : Packet → Packet}

/-- A call appends non-empty pieces that hold the range of the packet, and at most
`NUM_PKT_LIST_PER_TXREQ - 2`. The requests of the loop hold the packet behind its header without a gap
or an overlap, and each of them has at most `NUM_PKT_LIST_PER_TXREQ` pieces. -/
theorem txreq_ok (h : Linearizes rtwSkbLinearize) (w : Packet) :
    (∀ txreq off size, off + size ≤ w.2.len →
      Below (2 ^ 16) (walked rtwSkbLinearize w).2.parts off size →
      let (w', txreq') := fillTxreqListSkb rtwSkbLinearize w txreq size off
      ∃ new, Fills w w' off size txreq txreq' new ∧
        txreq'.totalLen = txreq.totalLen + BitVec.ofNat 32 size) ∧
    ∀ attrib fragPerfr wlFrags head tail, rtwSzLlc ≤ fragPerfr → 0 < wlFrags →
      attrib.pktHdrlen + wlFrags * fragPerfr < 2 ^ 31 → w.2.len < 2 ^ 32 →
      (∀ idx < wlFrags, Below (2 ^ 16) (walked rtwSkbLinearize w).2.parts
        (payloadStart attrib fragPerfr idx)
        (payloadSz w.2.len (payloadStart attrib fragPerfr idx) fragPerfr wlFrags idx)) →
      let st := fillTxreqPktPerfragTxos rtwSkbLinearize attrib fragPerfr wlFrags w head tail
      ∃ payloads : List (List PktBuf), payloads.length = wlFrags ∧
        List.Forall₂ ReqOk st.txreqs payloads ∧
        payloads.flatten.flatMap PktBuf.addrs = (addrs st.packet.2.parts).drop attrib.pktHdrlen ∧
        (payloads.flatten.flatMap PktBuf.addrs).map st.packet.1 =
          w.bytes.drop attrib.pktHdrlen := by
  constructor
  · intro txreq off size hin hbelow
    have hfills := fillTxreqListSkb_fills h w txreq hbelow
    refine ⟨_, hfills, ?_⟩
    have htotal := hfills.totalLen
    rwa [Nat.min_eq_left (by omega)] at htotal
  · intro attrib fragPerfr wlFrags head tail hfrag hpos hlt hlen hbelow
    obtain ⟨last, rfl⟩ : ∃ last, wlFrags = last + 1 := ⟨wlFrags - 1, by omega⟩
    obtain ⟨st, payloads, hst, hoff, hinv⟩ :=
      loop_prefix h w head tail hfrag hlt hbelow (Nat.lt_succ_self last)
    have hstart := pktHdrlen_le_payloadStart attrib hfrag last
    obtain ⟨payload, hstep⟩ := hinv.step h (by omega) last (hoff ▸ hbelow last (by omega))
    have hrun : fillTxreqPktPerfragTxos rtwSkbLinearize attrib fragPerfr (last + 1) w head tail =
        fillTxreqFrag rtwSkbLinearize attrib fragPerfr (last + 1) st last := by
      rw [fillTxreqPktPerfragTxos, List.range_succ, List.foldl_append, hst]
      rfl
    rw [← hrun] at hstep
    have hpacket : (fillTxreqPktPerfragTxos rtwSkbLinearize attrib fragPerfr (last + 1) w head
        tail).packet = walked rtwSkbLinearize w := by
      rw [hrun]
      exact hinv.packet
    -- the last range reaches to the end
    have haddrs : (payloads ++ [payload]).flatten.flatMap PktBuf.addrs =
        (addrs (walked rtwSkbLinearize w).2.parts).drop attrib.pktHdrlen := by
      rw [hstep.addrs]
      apply List.take_of_length_le
      rw [List.length_drop, length_addrs, hoff]
      have hlast := le_payloadSz_last fragPerfr (last + 1) hlen
        (payloadStart attrib fragPerfr last)
      rw [Nat.add_sub_cancel] at hlast
      have hlen' : total (walked rtwSkbLinearize w).2.parts = w.2.len := len_walked h w
      omega
    refine ⟨payloads ++ [payload], ?_, hstep.reqs, ?_, ?_⟩
    · rw [← hstep.reqs.length_eq, fillTxreqPktPerfragTxos, length_txreqs_foldl, List.length_range]
      exact Nat.zero_add _
    · rw [hpacket, haddrs]
    · rw [hpacket, haddrs, ← bytes_walked h w, Packet.bytes, List.map_drop]

/-- The data are copied to an address where nothing else is. -/
def copyOut (w : Packet) : Packet :=
  (fun a => if 2 ^ 20 ≤ a ∧ a < 2 ^ 20 + w.2.len then w.bytes.getD (a - 2 ^ 20) 0 else w.1 a,
    ⟨⟨⟨2 ^ 20, w.2.len⟩, []⟩, []⟩)

theorem linearizes_copyOut : Linearizes copyOut where
  frags _ := rfl
  fragList _ := rfl
  bytes w := by
    have haddrs : addrs (copyOut w).2.parts = List.range' (2 ^ 20) w.2.len := List.append_nil _
    rw [Packet.bytes, haddrs]
    apply List.ext_getElem
    · rw [List.length_map, List.length_range', length_bytes]
    · intro i hi hi'
      rw [length_bytes] at hi'
      rw [List.getElem_map, List.getElem_range']
      have hin : 2 ^ 20 ≤ 2 ^ 20 + 1 * i ∧ 2 ^ 20 + 1 * i < 2 ^ 20 + w.2.len := by omega
      have hi'' : 2 ^ 20 + 1 * i - 2 ^ 20 = i := by omega
      refine (if_pos hin).trans ?_
      rw [hi'', List.getD_eq_getElem]

/-- A packet of seven parts with a byte each. -/
def sevenParts : Packet :=
  (fun a => BitVec.ofNat 8 a,
    ⟨⟨⟨10, 1⟩, [⟨20, 1⟩, ⟨30, 1⟩, ⟨40, 1⟩]⟩, [⟨⟨50, 1⟩, [⟨60, 1⟩, ⟨70, 1⟩]⟩]⟩)

/-- The packet of seven parts is made linear; then a piece holds the four bytes from the third one
on, and two requests hold all of it. -/
theorem txreq_ok_sevenParts :
    (∃ new, Fills sevenParts (copyOut sevenParts) 2 4 ⟨1, 30, []⟩
        (fillTxreqListSkb copyOut sevenParts ⟨1, 30, []⟩ 4 2).2 new ∧
      (fillTxreqListSkb copyOut sevenParts ⟨1, 30, []⟩ 4 2).2.totalLen = 34) ∧
    ∃ payloads : List (List PktBuf), payloads.length = 2 ∧
      payloads.flatten.flatMap PktBuf.addrs = (addrs (copyOut sevenParts).2.parts).drop 1 := by
  have h := txreq_ok linearizes_copyOut sevenParts
  have hbelow : ∀ off n, Below (2 ^ 16) (walked copyOut sevenParts).2.parts off n :=
    below_of_total_lt (by decide)
  constructor
  · exact h.1 ⟨1, 30, []⟩ 2 4 (by decide) (hbelow 2 4)
  · obtain ⟨payloads, hlen, -, haddrs, -⟩ := h.2 ⟨24, false, 0, 0, 0, false, 1⟩ 10 2 0 0 (by decide)
      (by decide) (by decide) (by decide) fun _ _ => hbelow _ _
    exact ⟨payloads, hlen, haddrs⟩

/-- A packet with a head of 65536 bytes. -/
def longHead : Packet := (fun _ => 0, ⟨⟨⟨0, 65536⟩, []⟩, []⟩)

/-- The length of its piece does not fit into 16 bits. -/
theorem longHead_not_fills :
    ¬∀ rtwSkbLinearize, Linearizes rtwSkbLinearize → ∀ w txreq off size, off + size ≤ w.2.len →
      ∃ new, Fills w (fillTxreqListSkb rtwSkbLinearize w txreq size off).1 off size txreq
        (fillTxreqListSkb rtwSkbLinearize w txreq size off).2 new := by
  intro h
  obtain ⟨new, hfills⟩ := h copyOut linearizes_copyOut longHead ⟨1, 30, []⟩ 0 65536 (by decide)
  have hlist : (fillTxreqListSkb copyOut longHead ⟨1, 30, []⟩ 65536 0).2.pktList = [⟨0, 0⟩] := by
    decide
  obtain rfl : [⟨0, 0⟩] = new := hlist.symm.trans hfills.pktList
  exact hfills.nonempty ⟨0, 0⟩ (List.mem_singleton_self _) rfl

end Main

end Rtl88x2cu.Core.FillTxreq
