import Rtl88x2cu.Core.FrameBytes
import Rtl88x2cu.Lib.WhileLoop

/-!
# Splitting an A-MSDU

`amsdu_to_msdu` (`core/rtw_recv.c`) splits a received frame into MSDUs and gives each of them an
Ethernet header, with `rtw_recv_llc_parse` and `rtw_os_alloc_msdu_pkt`
(`os_dep/linux/recv_linux.c`). Every read is one of `load`, which fails outside of the frame.

The loop goes on while more than an Ethernet header is left, so that an MSDU without a payload is
lost at the end of a frame, and only there. `amsdu_iff` says for which lists of MSDUs all of them
are delivered.
-/

namespace Rtl88x2cu.Core.Amsdu

open Bytes

/-! ## Model -/

def ethAlen : ℕ := 6

def ethHlen : ℕ := 14

def snapSize : ℕ := 6

def maxSubframeCount : ℕ := 64

def rtwRfc1042Header : List Byte := [0xaa, 0xaa, 0x03, 0x00, 0x00, 0x00]

def rtwBridgeTunnelHeader : List Byte := [0xaa, 0xaa, 0x03, 0x00, 0x00, 0xf8]

/-- `ETH_P_AARP`. -/
def ethPAarp : ℕ := 0x80f3

/-- `ETH_P_IPX`. -/
def ethPIpx : ℕ := 0x8137

/-- `enum rtw_rx_llc_hdl`. -/
inductive RxLlcHdl where
  | keep
  | remove
  deriving DecidableEq, Repr

/-- The bits `RTW_RX_MSDU_ACT_INDICATE` and `RTW_RX_MSDU_ACT_FORWARD`. -/
structure RxMsduAct where
  indicate : Bool
  forward : Bool
  deriving DecidableEq, Repr

/-- `struct rx_pkt_attrib`, as far as it is read here. -/
structure RxPktAttrib where
  hdrlen : ℕ
  ivLen : ℕ
  icvLen : ℕ
  encrypt : Bool

/-- What the split depends on besides the frame: what becomes of an MSDU with this `DA`, `SA` and
content, whether there is memory for the packet of a turn of the loop, and
`rtw_recv_indicatepkt_check`. -/
structure Env where
  act : List Byte → List Byte → List Byte → RxLlcHdl → RxMsduAct
  pktAlloc : ℕ → Bool
  indicatepktCheck : List Byte → Bool

/-- The build without AP mode, mesh, WDS and WAPI, with enough memory. -/
def staEnv : Env where
  act := fun _ _ _ _ => ⟨true, false⟩
  pktAlloc := fun _ => true
  indicatepktCheck := fun _ => true

/-- What `rtw_recv_llc_parse` says of the first six bytes and the type behind them. -/
def llcHdlOf (snap : List Byte) (ethType : ℕ) : RxLlcHdl :=
  if (snap = rtwRfc1042Header ∧ ethType ≠ ethPAarp ∧ ethType ≠ ethPIpx) ∨
      snap = rtwBridgeTunnelHeader then .remove
  else .keep

/-- `rtw_recv_llc_parse`. -/
def rtwRecvLlcParse (frame : List Byte) (msdu msduLen : ℕ) : Option RxLlcHdl :=
  if msduLen < 8 then some .keep
  else do
    let ethType ← load frame (msdu + snapSize) 2
    let snap ← load frame msdu snapSize
    some (llcHdlOf snap (ofBe16 ethType))

/-- The packet with its Ethernet header. -/
def ethPkt (da sa msdu : List Byte) : RxLlcHdl → List Byte
  | .keep => da ++ (sa ++ (be16 msdu.length ++ msdu))
  | .remove => da ++ (sa ++ msdu.drop snapSize)

/-- `rtw_os_alloc_msdu_pkt`; `pktAlloc` tells whether a buffer or a clone can be allocated. -/
def rtwOsAllocMsduPkt (pktAlloc : Bool) (frame da sa : List Byte) (msdu msduLen : ℕ)
    (llcHdl : RxLlcHdl) : Option (Option (List Byte)) :=
  if pktAlloc then
    (load frame msdu msduLen).map fun bytes => some (ethPkt da sa bytes llcHdl)
  else some none

/-- The variables of the loop. -/
structure Loc where
  pdata : ℕ
  aLen : ℕ
  turn : ℕ := 0
  /-- The loop has been left with `break`. -/
  stop : Bool := false
  subframes : List (List Byte) := []

/-- From the label `move_to_next` on. -/
def moveToNext (n : ℕ) (s : Loc) : Loc :=
  let s := { s with pdata := s.pdata + ethHlen, aLen := s.aLen - ethHlen, turn := s.turn + 1 }
  if maxSubframeCount ≤ s.subframes.length then { s with stop := true }
  else
    let s := { s with pdata := s.pdata + n, aLen := s.aLen - n }
    if s.aLen ≠ 0 then
      let paddingLen := if 4 - (n + ethHlen) % 4 = 4 then 0 else 4 - (n + ethHlen) % 4
      if s.aLen < paddingLen then { s with stop := true }
      else { s with pdata := s.pdata + paddingLen, aLen := s.aLen - paddingLen }
    else s

/-- The body of the loop for an MSDU that is in the frame. -/
def deliver (env : Env) (frame : List Byte) (s : Loc) (n : ℕ) (da sa : List Byte)
    (llcHdl : RxLlcHdl) : Option Loc :=
  let act := env.act da sa (slice frame (s.pdata + ethHlen) n) llcHdl
  if act = ⟨false, false⟩ then some (moveToNext n s)
  else
    (rtwOsAllocMsduPkt (env.pktAlloc s.turn) frame da sa (s.pdata + ethHlen) n llcHdl).map fun
      | none => { s with stop := true }
      | some pkt =>
        if act.indicate && env.indicatepktCheck pkt then
          moveToNext n { s with subframes := s.subframes ++ [pkt] }
        else moveToNext n s

/-- The body of the loop. -/
def subframe (env : Env) (frame : List Byte) (s : Loc) : Option Loc := do
  let len ← load frame (s.pdata + 2 * ethAlen) 2
  if s.aLen < ethHlen + ofBe16 len then some { s with stop := true }
  else do
    let da ← load frame s.pdata ethAlen
    let sa ← load frame (s.pdata + ethAlen) ethAlen
    let llcHdl ← rtwRecvLlcParse frame (s.pdata + ethHlen) (ofBe16 len)
    deliver env frame s (ofBe16 len) da sa llcHdl

/-- The condition of the loop. -/
def more (s : Loc) : Bool := !s.stop && decide (ethHlen < s.aLen)

/-- The frame in front of the loop. -/
def content (attrib : RxPktAttrib) (frame : List Byte) : List Byte :=
  let frame := recvframePull (recvframePull frame attrib.hdrlen) attrib.ivLen
  if attrib.encrypt then recvframePullTail frame attrib.icvLen else frame

/-- `amsdu_to_msdu`: the packets that are indicated. `none` if a read is outside of the frame, or if
the loop is not at its end after a turn for each byte. -/
def amsduToMsdu (env : Env) (attrib : RxPktAttrib) (frame : List Byte) :
    Option (List (List Byte)) :=
  let frame := content attrib frame
  (whileLoop more (subframe env frame) (frame.length + 1) ⟨0, frame.length, 0, false, []⟩).map
    (·.subframes)

/-! ## The reads -/

/-- What is left is in the frame. -/
def Inside (frame : List Byte) (s : Loc) : Prop := s.pdata + s.aLen ≤ frame.length

/-- How many turns there are left at most. -/
def turnsLeft (s : Loc) : ℕ := if s.stop then 0 else s.aLen + 1

section
variable {env : Env} {frame da sa : List Byte} {s : Loc} {n : ℕ} {llcHdl : RxLlcHdl}

theorem more_iff : more s = true ↔ s.stop = false ∧ ethHlen < s.aLen := by
  unfold more
  simp

/-- Where the loop goes on: it has stopped, or it is behind the MSDU. -/
theorem moveToNext_cases (n : ℕ) (s : Loc) :
    ∃ used, moveToNext n s = { s with
        pdata := s.pdata + used
        aLen := s.aLen - used
        turn := s.turn + 1
        stop := s.stop || (moveToNext n s).stop } ∧
      ethHlen ≤ used ∧ (ethHlen + n ≤ s.aLen → used ≤ s.aLen) := by
  have hpad : (if 4 - (n + ethHlen) % 4 = 4 then 0 else 4 - (n + ethHlen) % 4) < 4 := by
    split <;> omega
  unfold moveToNext
  generalize (if 4 - (n + ethHlen) % 4 = 4 then 0 else 4 - (n + ethHlen) % 4) = pad at hpad
  dsimp only
  split
  · exact ⟨ethHlen, by simp, Nat.le_refl _, fun h => by omega⟩
  split
  · split
    · refine ⟨ethHlen + n, ?_, Nat.le_add_right _ _, id⟩
      simp [Nat.add_assoc, Nat.sub_sub]
    · refine ⟨ethHlen + n + pad, ?_, by omega, fun h => by omega⟩
      simp [Nat.add_assoc, Nat.sub_sub]
  · refine ⟨ethHlen + n, ?_, Nat.le_add_right _ _, id⟩
    simp [Nat.add_assoc, Nat.sub_sub]

/-- The loop moves on behind the MSDU. -/
theorem moveToNext_inside (h : Inside frame s) (hn : ethHlen + n ≤ s.aLen)
    (hstop : s.stop = false) :
    Inside frame (moveToNext n s) ∧ turnsLeft (moveToNext n s) < turnsLeft s := by
  obtain ⟨used, heq, hused, hle⟩ := moveToNext_cases n s
  have hlen : s.pdata + s.aLen ≤ frame.length := h
  have hfit := hle hn
  unfold ethHlen at hused
  rw [heq]
  constructor
  · show s.pdata + used + (s.aLen - used) ≤ frame.length
    omega
  · unfold turnsLeft
    rw [hstop, if_neg Bool.false_ne_true]
    dsimp only
    split <;> omega

theorem rtwRecvLlcParse_isSome {frame : List Byte} {msdu n : ℕ} (h : msdu + n ≤ frame.length) :
    ∃ llcHdl, rtwRecvLlcParse frame msdu n = some llcHdl := by
  unfold rtwRecvLlcParse
  split
  · exact ⟨_, rfl⟩
  · next hlen =>
    rw [load_eq (by unfold snapSize; omega), load_eq (by unfold snapSize; omega)]
    exact ⟨_, rfl⟩

theorem deliver_inside (h : Inside frame s) (hn : ethHlen + n ≤ s.aLen) (hstop : s.stop = false) :
    ∃ s', deliver env frame s n da sa llcHdl = some s' ∧ Inside frame s' ∧
      turnsLeft s' < turnsLeft s := by
  have hlen : s.pdata + s.aLen ≤ frame.length := h
  have hmove := moveToNext_inside h hn hstop
  unfold deliver
  dsimp only
  split
  · exact ⟨_, rfl, hmove⟩
  unfold rtwOsAllocMsduPkt
  split
  · rw [load_eq (by omega), Option.map_some, Option.map_some]
    refine ⟨_, rfl, ?_⟩
    dsimp only
    split
    · exact moveToNext_inside (s := { s with subframes := _ }) h hn hstop
    · exact hmove
  · refine ⟨_, rfl, h, ?_⟩
    simp [turnsLeft, hstop]

/-- A turn of the loop reads inside of the frame only. -/
theorem subframe_inside (h : Inside frame s) (hmore : more s = true) :
    ∃ s', subframe env frame s = some s' ∧ Inside frame s' ∧ turnsLeft s' < turnsLeft s := by
  obtain ⟨hstop, hlong⟩ := more_iff.mp hmore
  have hlen : s.pdata + s.aLen ≤ frame.length := h
  unfold ethHlen at hlong
  unfold subframe
  rw [load_eq (by unfold ethAlen; omega), Option.bind_eq_bind, Option.bind_some]
  split
  · refine ⟨_, rfl, h, ?_⟩
    simp [turnsLeft, hstop]
  · next hn =>
    have hn' := Nat.le_of_not_lt hn
    have hin : s.pdata + ethHlen + ofBe16 (slice frame (s.pdata + 2 * ethAlen) 2) ≤
        frame.length := by omega
    obtain ⟨llcHdl, hllc⟩ := rtwRecvLlcParse_isSome hin
    rw [load_eq (by unfold ethAlen; omega), load_eq (by unfold ethAlen; omega), hllc]
    exact deliver_inside h hn' hstop

/-- The split ends, and reads inside of the frame only. -/
theorem amsduToMsdu_isSome (env : Env) (attrib : RxPktAttrib) (frame : List Byte) :
    ∃ out, amsduToMsdu env attrib frame = some out := by
  obtain ⟨s, hs, -, -⟩ := whileLoop_total more (subframe env (content attrib frame))
    (Inside (content attrib frame)) turnsLeft (fun s hin hmore => subframe_inside hin hmore)
    ((content attrib frame).length + 1) ⟨0, (content attrib frame).length, 0, false, []⟩
    (Nat.le_of_eq (Nat.zero_add _)) (Nat.le_refl _)
  exact ⟨s.subframes, by rw [amsduToMsdu, hs]; rfl⟩

end

/-! ## Lists of MSDUs -/

/-- An MSDU with its addresses. -/
structure Msdu where
  da : List Byte
  sa : List Byte
  payload : List Byte
  length_da : da.length = ethAlen
  length_sa : sa.length = ethAlen
  length_payload : payload.length < 65536

/-- A subframe. -/
def Msdu.enc (m : Msdu) : List Byte :=
  m.da ++ (m.sa ++ (be16 m.payload.length ++ m.payload))

/-- `bytes` are the subframes of the MSDUs, filled up to a multiple of 4 in front of the next
one. -/
inductive Encodes : List Msdu → List Byte → Prop
  | nil : Encodes [] []
  | last (m : Msdu) : Encodes [m] m.enc
  | cons {m : Msdu} {ms : List Msdu} {pad bytes : List Byte} (hne : ms ≠ []) (hpad : pad.length < 4)
    (hmod : (m.enc.length + pad.length) % 4 = 0) (h : Encodes ms bytes) :
    Encodes (m :: ms) (m.enc ++ (pad ++ bytes))

/-- What `rtw_recv_llc_parse` says of the MSDU. -/
def Msdu.llcHdl (m : Msdu) : RxLlcHdl :=
  if m.payload.length < 8 then .keep
  else llcHdlOf (slice m.payload 0 snapSize) (ofBe16 (slice m.payload snapSize 2))

/-- The packet that the MSDU is delivered as. -/
def Msdu.pkt (m : Msdu) : List Byte := ethPkt m.da m.sa m.payload m.llcHdl

/-- The MSDU is to be indicated, there is memory for it, and its packet passes the check. -/
def Env.Accepts (env : Env) (turn : ℕ) (m : Msdu) : Prop :=
  (env.act m.da m.sa m.payload m.llcHdl).indicate = true ∧ env.pktAlloc turn = true ∧
    env.indicatepktCheck m.pkt = true

/-- So it is with all of them, from this turn on. -/
def Env.AcceptsAll (env : Env) : ℕ → List Msdu → Prop
  | _, [] => True
  | turn, m :: ms => env.Accepts turn m ∧ env.AcceptsAll (turn + 1) ms

/-- The last MSDU has a payload. -/
def LastFilled (ms : List Msdu) : Prop := ∀ m ∈ ms.getLast?, m.payload ≠ []

section
variable {env : Env} {frame pre rest : List Byte} {s : Loc} {m : Msdu} {ms : List Msdu}

theorem Msdu.length_enc (m : Msdu) : m.enc.length = ethHlen + m.payload.length := by
  unfold Msdu.enc
  simp only [List.length_append, length_be16, m.length_da, m.length_sa]
  unfold ethAlen ethHlen
  omega

theorem Encodes.length_pos {bytes : List Byte} (h : Encodes ms bytes) (hne : ms ≠ []) :
    0 < bytes.length := by
  cases h with
  | nil => exact absurd rfl hne
  | last m =>
    rw [m.length_enc]
    exact Nat.add_pos_left (by decide) _
  | cons =>
    rw [List.length_append, Msdu.length_enc]
    exact Nat.add_pos_left (Nat.add_pos_left (by decide) _) _

/-- The loop is in front of the bytes `rest`. -/
structure At (frame pre rest : List Byte) (s : Loc) : Prop where
  frame : frame = pre ++ rest
  pdata : s.pdata = pre.length
  aLen : s.aLen = rest.length
  stop : s.stop = false

/-- The parts of the subframe in front of the loop. -/
theorem At.loads (h : At frame pre (m.enc ++ rest) s) :
    load frame s.pdata ethAlen = some m.da ∧
      load frame (s.pdata + ethAlen) ethAlen = some m.sa ∧
      load frame (s.pdata + 2 * ethAlen) 2 = some (be16 m.payload.length) ∧
      load frame (s.pdata + ethHlen) m.payload.length = some m.payload ∧
      frame = (pre ++ (m.da ++ (m.sa ++ be16 m.payload.length))) ++ (m.payload ++ rest) := by
  have hframe := h.frame
  unfold Msdu.enc at hframe
  have hda := m.length_da
  have hsa := m.length_sa
  rw [h.pdata]
  refine ⟨?_, ?_, ?_, ?_, ?_⟩
  · rw [hframe, List.append_assoc]
    exact load_middle rfl hda
  · rw [hframe, List.append_assoc, ← List.append_assoc pre, List.append_assoc m.sa]
    exact load_middle (by rw [List.length_append, hda]) hsa
  · rw [hframe, List.append_assoc, ← List.append_assoc pre, List.append_assoc m.sa,
      ← List.append_assoc (pre ++ m.da), List.append_assoc (be16 _)]
    refine load_middle ?_ rfl
    simp only [List.length_append, hda, hsa]
    omega
  · rw [hframe, List.append_assoc, ← List.append_assoc pre, List.append_assoc m.sa,
      ← List.append_assoc (pre ++ m.da), List.append_assoc (be16 _), ← List.append_assoc]
    refine load_middle ?_ rfl
    simp only [List.length_append, hda, hsa, length_be16]
    unfold ethAlen ethHlen
    omega
  · rw [hframe]
    simp only [List.append_assoc]

theorem At.llcParse (h : At frame pre (m.enc ++ rest) s) :
    rtwRecvLlcParse frame (s.pdata + ethHlen) m.payload.length = some m.llcHdl := by
  obtain ⟨-, -, -, -, hframe⟩ := h.loads
  have hpos : (pre ++ (m.da ++ (m.sa ++ be16 m.payload.length))).length = s.pdata + ethHlen := by
    simp only [List.length_append, m.length_da, m.length_sa, length_be16, h.pdata]
    unfold ethAlen ethHlen
    omega
  unfold rtwRecvLlcParse Msdu.llcHdl
  split
  · rfl
  · next hlen =>
    have hload (off len : ℕ) (hin : off + len ≤ m.payload.length) :
        load frame (s.pdata + ethHlen + off) len = some (slice m.payload off len) := by
      conv_lhs => rw [hframe]
      exact load_part hpos hin
    have hsnap := hload 0 snapSize (by unfold snapSize; omega)
    rw [Nat.add_zero] at hsnap
    rw [hload snapSize 2 (by unfold snapSize; omega), hsnap]
    rfl

variable (env) in
/-- A turn of the loop for a subframe. -/
theorem At.subframe (h : At frame pre (m.enc ++ rest) s) :
    (env.Accepts s.turn m ∧ subframe env frame s =
        some (moveToNext m.payload.length { s with subframes := s.subframes ++ [m.pkt] })) ∨
      (¬ env.Accepts s.turn m ∧
        (subframe env frame s = some (moveToNext m.payload.length s) ∨
          subframe env frame s = some { s with stop := true })) := by
  obtain ⟨hda, hsa, hlen, hmsdu, -⟩ := h.loads
  have hfits : ¬ s.aLen < ethHlen + m.payload.length := by
    rw [h.aLen, List.length_append, m.length_enc]
    omega
  have hslice : slice frame (s.pdata + ethHlen) m.payload.length = m.payload := by
    unfold load at hmsdu
    split at hmsdu
    · exact Option.some.inj hmsdu
    · cases hmsdu
  have hbody : Amsdu.subframe env frame s =
      deliver env frame s m.payload.length m.da m.sa m.llcHdl := by
    unfold Amsdu.subframe
    rw [hlen, Option.bind_eq_bind, Option.bind_some, ofBe16_be16 m.length_payload, if_neg hfits,
      hda, hsa, h.llcParse]
    rfl
  rw [hbody]
  unfold deliver Env.Accepts
  rw [hslice]
  dsimp only
  split
  · next hact =>
    rw [hact]
    exact .inr ⟨fun hacc => Bool.false_ne_true hacc.1, .inl rfl⟩
  unfold rtwOsAllocMsduPkt
  cases hpkt : env.pktAlloc s.turn with
  | false => exact .inr ⟨fun hacc => Bool.false_ne_true hacc.2.1, .inr rfl⟩
  | true =>
    rw [if_pos rfl, hmsdu, Option.map_some, Option.map_some]
    dsimp only
    rw [show ethPkt m.da m.sa m.payload m.llcHdl = m.pkt from rfl]
    split
    · next hind =>
      rw [Bool.and_eq_true] at hind
      exact .inl ⟨⟨hind.1, rfl, hind.2⟩, rfl⟩
    · next hind =>
      rw [Bool.and_eq_true] at hind
      exact .inr ⟨fun hacc => hind ⟨hacc.1, hacc.2.2⟩, .inl rfl⟩

/-- The loop is at its end behind the last subframe. -/
theorem moveToNext_last (haLen : s.aLen = ethHlen + m.payload.length) :
    more (moveToNext m.payload.length s) = false ∧
      (moveToNext m.payload.length s).subframes = s.subframes := by
  unfold moveToNext more
  dsimp only
  split
  · simp
  · have h0 : s.aLen - ethHlen - m.payload.length = 0 := by omega
    rw [h0, if_neg (fun h => h rfl)]
    simp

/-- Behind another one it is in front of the next one. -/
theorem At.moveToNext {pad bytes : List Byte} (h : At frame pre (m.enc ++ (pad ++ bytes)) s)
    (hpad : pad.length < 4) (hmod : (m.enc.length + pad.length) % 4 = 0) (hpos : 0 < bytes.length)
    (hroom : s.subframes.length < maxSubframeCount) :
    At frame (pre ++ (m.enc ++ pad)) bytes (moveToNext m.payload.length s) ∧
      (Amsdu.moveToNext m.payload.length s).subframes = s.subframes ∧
      (Amsdu.moveToNext m.payload.length s).turn = s.turn + 1 := by
  have haLen : s.aLen = ethHlen + m.payload.length + (pad.length + bytes.length) := by
    rw [h.aLen, List.length_append, m.length_enc, List.length_append]
  have hpadLen : (if 4 - (m.payload.length + ethHlen) % 4 = 4 then 0
      else 4 - (m.payload.length + ethHlen) % 4) = pad.length := by
    rw [m.length_enc] at hmod
    split <;> omega
  have hleft : s.aLen - ethHlen - m.payload.length = pad.length + bytes.length := by omega
  unfold Amsdu.moveToNext
  dsimp only
  rw [if_neg (Nat.not_le_of_lt hroom), hleft, if_pos (by omega), hpadLen, if_neg (by omega)]
  refine ⟨⟨?_, ?_, ?_, h.stop⟩, rfl, rfl⟩
  · rw [h.frame, List.append_assoc, List.append_assoc]
  · show s.pdata + ethHlen + m.payload.length + pad.length = _
    rw [h.pdata, List.length_append, List.length_append, m.length_enc]
    omega
  · show pad.length + bytes.length - pad.length = bytes.length
    omega

/-! ## The whole list -/

/-- All MSDUs are accepted, and the last one has a payload. -/
def Env.DeliversAll (env : Env) (turn : ℕ) (ms : List Msdu) : Prop :=
  env.AcceptsAll turn ms ∧ LastFilled ms

theorem Env.deliversAll_cons {turn : ℕ} (hne : ms ≠ []) :
    env.DeliversAll turn (m :: ms) ↔ env.Accepts turn m ∧ env.DeliversAll (turn + 1) ms := by
  obtain ⟨m', ms', rfl⟩ := List.exists_cons_of_ne_nil hne
  exact and_assoc

/-- What the loop adds for the rest of the MSDUs: all their packets, or too few. -/
structure Adds (env : Env) (s s' : Loc) (ms : List Msdu) : Prop where
  all : env.DeliversAll s.turn ms → s'.subframes = s.subframes ++ ms.map (·.pkt)
  some : ¬ env.DeliversAll s.turn ms → s'.subframes.length < s.subframes.length + ms.length

/-- The loop ends with the state that it is in. -/
theorem Adds.of_more {fuel : ℕ} (hmore : more s = false) (h : Adds env s s ms) :
    ∃ s', whileLoop more (Amsdu.subframe env frame) fuel s = .some s' ∧ Adds env s s' ms :=
  ⟨s, whileLoop_of_not fuel hmore, h⟩

variable (env) in
theorem Encodes.loop {bytes : List Byte} (h : Encodes ms bytes) {fuel : ℕ}
    (hat : At frame pre bytes s) (hroom : s.subframes.length + ms.length ≤ maxSubframeCount)
    (hfuel : s.aLen < fuel) :
    ∃ s', whileLoop more (Amsdu.subframe env frame) fuel s = .some s' ∧ Adds env s s' ms := by
  induction h generalizing pre s fuel with
  | nil =>
    have hmore : more s = false := by simp [more, hat.aLen]
    refine Adds.of_more hmore ⟨fun _ => by simp, fun hno => absurd ⟨trivial, ?_⟩ hno⟩
    intro m hm
    cases hm
  | last m =>
    have hat' : At frame pre (m.enc ++ []) s := by rwa [List.append_nil]
    have haLen : s.aLen = ethHlen + m.payload.length := hat.aLen.trans m.length_enc
    by_cases hempty : m.payload = []
    · -- a lone header is left over
      have hmore : more s = false := by simp [more, haLen, hempty]
      refine Adds.of_more hmore ⟨fun hall => absurd hempty (hall.2 m rfl), fun _ => ?_⟩
      exact Nat.lt_succ_self _
    have hmore : more s = true :=
      more_iff.mpr ⟨hat.stop, haLen ▸ Nat.lt_add_of_pos_right (List.length_pos_iff.mpr hempty)⟩
    obtain ⟨fuel, rfl⟩ : ∃ n, fuel = n + 1 := ⟨fuel - 1, by omega⟩
    rw [whileLoop_succ fuel hmore]
    have hfilled : LastFilled [m] := fun m' hm' => Option.some.inj hm' ▸ hempty
    rcases hat'.subframe env with ⟨hacc, hbody⟩ | ⟨hno, hbody | hbody⟩
    · obtain ⟨hend, hsub⟩ := moveToNext_last (m := m)
        (s := { s with subframes := s.subframes ++ [m.pkt] }) haLen
      rw [hbody, Option.bind_some, whileLoop_of_not _ hend]
      exact ⟨_, rfl, fun _ => hsub, fun hnot => absurd ⟨⟨hacc, trivial⟩, hfilled⟩ hnot⟩
    · obtain ⟨hend, hsub⟩ := moveToNext_last haLen
      rw [hbody, Option.bind_some, whileLoop_of_not _ hend]
      exact ⟨_, rfl, fun hall => absurd hall.1.1 hno,
        fun _ => by rw [hsub]; exact Nat.lt_succ_self _⟩
    · rw [hbody, Option.bind_some, whileLoop_of_not _ (by simp [more])]
      exact ⟨_, rfl, fun hall => absurd hall.1.1 hno, fun _ => Nat.lt_succ_self _⟩
  | @cons m ms pad bytes hne hpad hmod hrest ih =>
    have hpos := hrest.length_pos hne
    have hms : 0 < ms.length := List.length_pos_iff.mpr hne
    rw [List.length_cons] at hroom
    have haLen : s.aLen = ethHlen + m.payload.length + (pad.length + bytes.length) := by
      rw [hat.aLen, List.length_append, m.length_enc, List.length_append]
    have hmore : more s = true := more_iff.mpr ⟨hat.stop, by omega⟩
    have hfuel' : bytes.length < fuel - 1 := by
      unfold ethHlen at haLen
      omega
    obtain ⟨fuel, rfl⟩ : ∃ n, fuel = n + 1 := ⟨fuel - 1, by omega⟩
    rw [whileLoop_succ fuel hmore]
    rcases hat.subframe env with ⟨hacc, hbody⟩ | ⟨hno, hbody | hbody⟩
    · have hat₁ : At frame pre (m.enc ++ (pad ++ bytes))
          { s with subframes := s.subframes ++ [m.pkt] } :=
        ⟨hat.frame, hat.pdata, hat.aLen, hat.stop⟩
      obtain ⟨hnext, hsub, hturn⟩ := hat₁.moveToNext hpad hmod hpos (by simp; omega)
      rw [hbody, Option.bind_some]
      obtain ⟨s', hs', hadds⟩ := ih hnext
        (by rw [hsub, List.length_append, List.length_singleton]; omega)
        (Nat.lt_of_le_of_lt (Nat.le_of_eq hnext.aLen) hfuel')
      have hsub' : (moveToNext m.payload.length
          { s with subframes := s.subframes ++ [m.pkt] }).subframes = s.subframes ++ [m.pkt] := hsub
      refine ⟨s', hs', fun hall => ?_, fun hno => ?_⟩
      · have hrest' := (Env.deliversAll_cons hne).mp hall
        rw [hadds.all (hturn ▸ hrest'.2), hsub', List.append_assoc]
        rfl
      · have hrest' := hadds.some fun hall =>
          hno ((Env.deliversAll_cons hne).mpr ⟨hacc, by rwa [hturn] at hall⟩)
        rw [hsub', List.length_append, List.length_singleton] at hrest'
        rw [List.length_cons]
        omega
    · obtain ⟨hnext, hsub, -⟩ := hat.moveToNext hpad hmod hpos (by omega)
      rw [hbody, Option.bind_some]
      obtain ⟨s', hs', hadds⟩ := ih hnext (by rw [hsub]; omega)
        (Nat.lt_of_le_of_lt (Nat.le_of_eq hnext.aLen) hfuel')
      refine ⟨s', hs', fun hall => absurd hall.1.1 hno, fun _ => ?_⟩
      rw [List.length_cons]
      -- whatever becomes of the others, one packet is missing
      by_cases hall : env.DeliversAll (moveToNext m.payload.length s).turn ms
      · rw [hadds.all hall, hsub, List.length_append, List.length_map]
        omega
      · have hrest' := hadds.some hall
        rw [hsub] at hrest'
        omega
    · rw [hbody, Option.bind_some, whileLoop_of_not _ (by simp [more])]
      refine ⟨_, rfl, fun hall => absurd hall.1.1 hno, fun _ => ?_⟩
      exact Nat.lt_add_of_pos_right (Nat.succ_pos _)

theorem content_eq {attrib : RxPktAttrib} {hdr bytes icv : List Byte}
    (hhdr : hdr.length = attrib.hdrlen + attrib.ivLen)
    (hicv : icv.length = if attrib.encrypt then attrib.icvLen else 0) :
    content attrib (hdr ++ (bytes ++ icv)) = bytes := by
  have hfirst : recvframePull (recvframePull (hdr ++ (bytes ++ icv)) attrib.hdrlen) attrib.ivLen =
      bytes ++ icv := by
    have hsplit : hdr ++ (bytes ++ icv) =
        hdr.take attrib.hdrlen ++ (hdr.drop attrib.hdrlen ++ (bytes ++ icv)) := by
      rw [← List.append_assoc (hdr.take _), List.take_append_drop]
    rw [hsplit, recvframePull_append (by rw [List.length_take]; omega),
      recvframePull_append (by rw [List.length_drop]; omega)]
  unfold content
  rw [hfirst]
  dsimp only
  split
  · next henc =>
    rw [henc, if_pos rfl] at hicv
    exact recvframePullTail_append hicv
  · next henc =>
    rw [if_neg henc, List.length_eq_zero_iff] at hicv
    rw [hicv, List.append_nil]

end

/-- The split ends and reads inside of every frame. It delivers a list of MSDUs, in order and with
their Ethernet headers, exactly if all of them are accepted and the last one has a payload. -/
theorem amsdu_iff (env : Env) (attrib : RxPktAttrib) :
    (∀ frame, ∃ out, amsduToMsdu env attrib frame = some out) ∧
      ∀ {ms : List Msdu} {bytes hdr icv : List Byte}, Encodes ms bytes →
        ms.length ≤ maxSubframeCount → hdr.length = attrib.hdrlen + attrib.ivLen →
        icv.length = (if attrib.encrypt then attrib.icvLen else 0) →
        (amsduToMsdu env attrib (hdr ++ (bytes ++ icv)) = some (ms.map (·.pkt)) ↔
          env.AcceptsAll 0 ms ∧ LastFilled ms) := by
  refine ⟨amsduToMsdu_isSome env attrib, fun {ms bytes hdr icv} henc hcount hhdr hicv => ?_⟩
  have hat : At bytes [] bytes ⟨0, bytes.length, 0, false, []⟩ := ⟨rfl, rfl, rfl, rfl⟩
  obtain ⟨s', hs', hadds⟩ := henc.loop env hat (by simpa using hcount)
    (show bytes.length < bytes.length + 1 from Nat.lt_succ_self _)
  have hrun : amsduToMsdu env attrib (hdr ++ (bytes ++ icv)) = some s'.subframes := by
    unfold amsduToMsdu
    rw [content_eq hhdr hicv]
    exact congrArg (Option.map (·.subframes)) hs'
  rw [hrun, Option.some.injEq]
  constructor
  · intro heq
    by_contra hno
    have hlt := hadds.some hno
    rw [heq, List.length_map] at hlt
    simp at hlt
  · intro hall
    have := hadds.all hall
    rwa [List.nil_append] at this

/-- An MSDU from `a` to `b` with this payload. -/
def msduOf (payload : List Byte) (h : payload.length < 65536) : Msdu :=
  ⟨List.replicate 6 0xa, List.replicate 6 0xb, payload, rfl, rfl, h⟩

/-- An unprotected frame with a header of 26 bytes. -/
def qosAttrib : RxPktAttrib := ⟨26, 0, 0, false⟩

theorem amsdu_two :
    amsduToMsdu staEnv qosAttrib (List.replicate 26 0 ++ (((msduOf [] (by decide)).enc ++
        ([0, 0] ++ (msduOf [1] (by decide)).enc)) ++ [])) =
      some [(msduOf [] (by decide)).pkt, (msduOf [1] (by decide)).pkt] := by
  have henc : Encodes [msduOf [] (by decide), msduOf [1] (by decide)]
      ((msduOf [] (by decide)).enc ++ ([0, 0] ++ (msduOf [1] (by decide)).enc)) :=
    .cons (by simp) (by decide) (by decide) (.last _)
  have hall : staEnv.AcceptsAll 0 [msduOf [] (by decide), msduOf [1] (by decide)] :=
    ⟨⟨rfl, rfl, rfl⟩, ⟨rfl, rfl, rfl⟩, trivial⟩
  exact ((amsdu_iff staEnv qosAttrib).2 henc (by decide) rfl rfl).mpr
    ⟨hall, fun m hm => Option.some.inj hm ▸ List.cons_ne_nil 1 []⟩

/-- The same MSDUs the other way round: the one without a payload is lost. -/
theorem amsdu_lastEmpty :
    Encodes [msduOf [1] (by decide), msduOf [] (by decide)]
        ((msduOf [1] (by decide)).enc ++ ([0] ++ (msduOf [] (by decide)).enc)) ∧
      amsduToMsdu staEnv qosAttrib (List.replicate 26 0 ++ (((msduOf [1] (by decide)).enc ++
          ([0] ++ (msduOf [] (by decide)).enc)) ++ [])) =
        some [(msduOf [1] (by decide)).pkt] :=
  ⟨.cons (by simp) (by decide) (by decide) (.last _), by decide⟩

end Rtl88x2cu.Core.Amsdu
