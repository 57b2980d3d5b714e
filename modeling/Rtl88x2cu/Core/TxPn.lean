import Rtl88x2cu.Core.RecvPn
import Rtl88x2cu.Core.Tkip
import Rtl88x2cu.Crypto.Ccmp

/-!
# Packet numbers of sent frames

`WEP_IV`, `TKIP_IV`, `AES_IV` and `GCMP_IV` (`include/rtw_xmit.h`) count the packet number of a
station, `dot11txpn`, and write it into the bytes behind the header. `update_attrib_sec_iv_info`
(`core/rtw_xmit.c`) chooses between them. The number begins again with zero; nothing stops it.

`ccmA_sendFrames_eq_iff` says when two blocks of the key stream of CCMP are the same, and
`run_group_once` that group-addressed frames are accepted at most once and in order by a station
that receives them in any order, any number of times.
-/

namespace Rtl88x2cu.Core

open Bytes BlockMode Crypto
open Tkip (tsc tkipIv)

/-! ## Model -/

/-- The count of `WEP_IV`. -/
def nextWepPn (pn : BitVec 64) : BitVec 64 := if pn = 0xffffff then 0 else pn + 1

/-- The count of `AES_IV`, as of `TKIP_IV`. -/
def nextPn (pn : BitVec 64) : BitVec 64 := if pn = 0xffffffffffff then 0 else pn + 1

/-- What `WEP_IV` writes, for the number behind the count. -/
def wepIv (pn : BitVec 64) (keyidx : Byte) : List Byte :=
  [tsc pn 0, tsc pn 1, tsc pn 2, (keyidx &&& 0x3) <<< 6]

/-- What `AES_IV` and `GCMP_IV` write. -/
def aesIv (pn : BitVec 64) (keyidx : Byte) : List Byte :=
  [tsc pn 0, tsc pn 1, 0, 0x20 ||| (keyidx &&& 0x3) <<< 6, tsc pn 2, tsc pn 3, tsc pn 4, tsc pn 5]

/-- `update_attrib_sec_iv_info`, for a frame that has a station: what is written to `iv`, and the
number of the station. -/
def updateAttribSecIvInfo (encrypt : SecurityType) (bmcast : Bool) (keyIdx : Byte)
    (pn : BitVec 64) : List Byte × BitVec 64 :=
  let keyidx := if bmcast then keyIdx else 0
  match encrypt with
  -- the key of the frame, whoever it is sent to
  | .wep40 | .wep104 => (wepIv (nextWepPn pn) keyIdx, nextWepPn pn)
  | .tkip => tkipIv pn keyidx
  | .aes | .gcmp | .gcmp256 | .ccmp256 => (aesIv (nextPn pn) keyidx, nextPn pn)
  -- also `_SMS4_`, without `CONFIG_WAPI_SUPPORT`
  | _ => ([], pn)

/-- A frame to be sent: its header, and what is chosen for its encryption. -/
structure TxFrame where
  hdr : List Byte
  encrypt : SecurityType
  bmcast : Bool
  keyIdx : Byte

/-- The headers and the bytes behind them of frames sent one after the other to a station. -/
def sendFrames : BitVec 64 → List TxFrame → List (List Byte × List Byte)
  | _, [] => []
  | pn, f :: fs =>
    let r := updateAttribSecIvInfo f.encrypt f.bmcast f.keyIdx pn
    (f.hdr, r.1) :: sendFrames r.2 fs

/-- The eight bytes behind a header, as `le64_to_cpu` reads them. -/
def ivWord (iv : List Byte) : BitVec 64 := BitVec.ofNat 64 (ofLe iv)

/-! ## Counting -/

/-- The number that is sent: 48 bits. -/
theorem toNat_nextPn (pn : BitVec 64) : (nextPn pn).toNat % 2 ^ 48 = (pn.toNat + 1) % 2 ^ 48 := by
  rw [nextPn]
  split
  · rename_i h
    rw [h]
    rfl
  · rw [BitVec.toNat_add]
    change (pn.toNat + 1) % 2 ^ 64 % 2 ^ 48 = _
    omega

/-- A number of 48 bits that is not the last one. -/
theorem toNat_nextPn_of_lt {pn : BitVec 64} (h : pn.toNat + 1 < 2 ^ 48) :
    (nextPn pn).toNat = pn.toNat + 1 := by
  have hne : pn ≠ 0xffffffffffff := by
    rintro rfl
    exact absurd h (by decide)
  rw [nextPn, if_neg hne, BitVec.toNat_add]
  change (pn.toNat + 1) % 2 ^ 64 = _
  omega

theorem toNat_nextPn_iterate (pn : BitVec 64) (n : ℕ) :
    (nextPn^[n] pn).toNat % 2 ^ 48 = (pn.toNat + n) % 2 ^ 48 := by
  induction n with
  | zero => rfl
  | succ n ih =>
    rw [Function.iterate_succ_apply', toNat_nextPn]
    omega

theorem toNat_tsc (pn : BitVec 64) (i : ℕ) : (tsc pn i).toNat = pn.toNat / 256 ^ i % 2 ^ 8 := by
  rw [tsc, BitVec.toNat_setWidth, BitVec.toNat_ushiftRight, Nat.shiftRight_eq_div_pow, Nat.pow_mul]

/-- The nonce has the 48 bits. -/
theorem framePn_aesIv_eq_iff {pn pn' : BitVec 64} (keyidx keyidx' : Byte) :
    framePn (aesIv pn keyidx) = framePn (aesIv pn' keyidx') ↔
      pn.toNat % 2 ^ 48 = pn'.toNat % 2 ^ 48 := by
  have hbytes (pn : BitVec 64) (keyidx : Byte) : framePn (aesIv pn keyidx) =
      [tsc pn 5, tsc pn 4, tsc pn 3, tsc pn 2, tsc pn 1, tsc pn 0] := rfl
  have htsc (i : ℕ) : tsc pn i = tsc pn' i ↔
      pn.toNat / 256 ^ i % 2 ^ 8 = pn'.toNat / 256 ^ i % 2 ^ 8 := by
    rw [← BitVec.toNat_inj, toNat_tsc, toNat_tsc]
  rw [hbytes, hbytes]
  simp only [List.cons.injEq, and_true, htsc]
  -- six digits to the base 256
  omega

/-- The ciphers of `AES_IV` and `GCMP_IV`. -/
def IsAead (encrypt : SecurityType) : Prop := encrypt ∈ [.aes, .gcmp, .gcmp256, .ccmp256]

theorem updateAttribSecIvInfo_of_isAead {encrypt : SecurityType} (h : IsAead encrypt)
    (bmcast : Bool) (keyIdx : Byte) (pn : BitVec 64) :
    updateAttribSecIvInfo encrypt bmcast keyIdx pn =
      (aesIv (nextPn pn) (if bmcast then keyIdx else 0), nextPn pn) := by
  simp only [IsAead, List.mem_cons, List.not_mem_nil, or_false] at h
  obtain rfl | rfl | rfl | rfl := h
  · rfl
  · rfl
  · rfl
  · rfl

/-- The frame in place `j` has the number `j + 1` behind the first one. -/
theorem getElem?_sendFrames {fs : List TxFrame} (h : ∀ f ∈ fs, IsAead f.encrypt ∧ 24 ≤ f.hdr.length)
    {pn : BitVec 64} {j : ℕ} {f : List Byte × List Byte} (hj : (sendFrames pn fs)[j]? = some f) :
    24 ≤ f.1.length ∧ ∃ keyidx, f.2 = aesIv (nextPn^[j + 1] pn) keyidx := by
  induction fs generalizing pn j with
  | nil =>
    rw [sendFrames, List.getElem?_nil] at hj
    exact absurd hj (Option.some_ne_none f).symm
  | cons x fs ih =>
    rw [List.forall_mem_cons] at h
    rw [sendFrames, updateAttribSecIvInfo_of_isAead h.1.1] at hj
    cases j with
    | zero =>
      rw [List.getElem?_cons_zero, Option.some.injEq] at hj
      rw [← hj]
      exact ⟨h.1.2, _, rfl⟩
    | succ j =>
      rw [List.getElem?_cons_succ] at hj
      obtain ⟨hhdr, keyidx, hiv⟩ := ih h.2 hj
      exact ⟨hhdr, keyidx, by rw [hiv, ← Function.iterate_succ_apply]⟩

/-! ## Key streams -/

theorem ccmA_eq_iff {nonce nonce' : Vector Byte 13} {i i' : ℕ} (hi : i < 65536)
    (hi' : i' < 65536) : ccmA nonce i = ccmA nonce' i' ↔ nonce = nonce' ∧ i = i' := by
  have hlen (nonce : Vector Byte 13) (i : ℕ) :
      ((1 : Byte) :: (nonce.toList ++ be16 i)).length = 16 := by
    rw [List.length_cons, List.length_append, Vector.length_toList, length_be16]
  constructor
  · intro h
    have hlist := congrArg Vector.toList h
    rw [ccmA, ccmA, toList_ofBytes (hlen _ _), toList_ofBytes (hlen _ _), List.cons.injEq] at hlist
    -- the nonce has a fixed length, so the two bytes of the place can be split off
    obtain ⟨hnonce, hbe⟩ := List.append_inj hlist.2 (by rw [Vector.length_toList,
      Vector.length_toList])
    exact ⟨Vector.toList_inj.mp hnonce, be16_injective hi hi' hbe⟩
  · rintro ⟨rfl, rfl⟩
    rfl

/-- The block `i` of the key stream of a frame, before it is encrypted: `ccmpEncryptWith_append`. -/
def counterBlock (f : List Byte × List Byte) (i : ℕ) : Block 16 :=
  ccmA (ccmNonce (ccmpAadNonce (f.1 ++ f.2) f.2).2) i

/-- Two blocks of the key streams of frames sent under one key are the same exactly if they are in
the same place of frames with the same flags and transmitter whose places differ by a multiple of
`2 ^ 48`. -/
theorem ccmA_sendFrames_eq_iff {fs : List TxFrame}
    (h : ∀ f ∈ fs, IsAead f.encrypt ∧ 24 ≤ f.hdr.length) (pn : BitVec 64) {j k i i' : ℕ}
    {f f' : List Byte × List Byte} (hj : (sendFrames pn fs)[j]? = some f)
    (hk : (sendFrames pn fs)[k]? = some f') (hi : i < 65536) (hi' : i' < 65536) :
    counterBlock f i = counterBlock f' i' ↔
      i = i' ∧ nonceFlags (f.1 ++ f.2) = nonceFlags (f'.1 ++ f'.2) ∧
        slice f.1 10 6 = slice f'.1 10 6 ∧ j % 2 ^ 48 = k % 2 ^ 48 := by
  obtain ⟨hhdr, keyidx, hiv⟩ := getElem?_sendFrames h hj
  obtain ⟨hhdr', keyidx', hiv'⟩ := getElem?_sendFrames h hk
  have hlen := length_slice (show 10 + 6 ≤ f.1.length by omega)
  have hlen' := length_slice (show 10 + 6 ≤ f'.1.length by omega)
  have hparts {hdr iv : List Byte} (h : 10 + 6 ≤ hdr.length) : (ccmpAadNonce (hdr ++ iv) iv).2 =
      nonceFlags (hdr ++ iv) :: (slice hdr 10 6 ++ framePn iv) := by
    rw [ccmpAadNonce, slice_append h]
  have hsize (b : Byte) {addr : List Byte} (iv : List Byte) (h : addr.length = 6) :
      (b :: (addr ++ framePn iv)).length = 13 := by
    rw [List.length_cons, List.length_append, h]
    rfl
  have hnonce {l l' : List Byte} (hl : l.length = 13) (hl' : l'.length = 13) :
      ccmNonce l = ccmNonce l' ↔ l = l' := by
    refine ⟨fun h => ?_, fun h => by rw [h]⟩
    have hlist := congrArg Vector.toList h
    rwa [ccmNonce, ccmNonce, toList_ofBytes hl, toList_ofBytes hl'] at hlist
  rw [counterBlock, counterBlock, ccmA_eq_iff hi hi', hparts (by omega), hparts (by omega),
    hnonce (hsize _ _ hlen) (hsize _ _ hlen'), List.cons.injEq,
    List.append_eq_append_iff_of_size_eq_left (hlen.trans hlen'.symm)]
  -- the packet numbers
  rw [hiv, hiv', framePn_aesIv_eq_iff, toNat_nextPn_iterate, toNat_nextPn_iterate]
  have hmod : (pn.toNat + (j + 1)) % 2 ^ 48 = (pn.toNat + (k + 1)) % 2 ^ 48 ↔
      j % 2 ^ 48 = k % 2 ^ 48 := by omega
  rw [hmod]
  tauto

/-- A group-addressed frame and one to a station. -/
def twoFrames : List TxFrame :=
  [⟨.replicate 24 0, .aes, true, 1⟩, ⟨.replicate 24 0, .ccmp256, false, 0⟩]

/-- The second blocks of their key streams. -/
theorem counterBlock_two : ∃ f f', (sendFrames 0 twoFrames)[0]? = some f ∧
    (sendFrames 0 twoFrames)[1]? = some f' ∧ counterBlock f 2 ≠ counterBlock f' 2 := by
  have hok : ∀ f ∈ twoFrames, IsAead f.encrypt ∧ 24 ≤ f.hdr.length := by
    intro f hf
    obtain rfl | rfl := List.mem_pair.mp hf
    · exact ⟨List.mem_cons_self, by decide⟩
    · exact ⟨by simp [IsAead], by decide⟩
  have hfirst : (sendFrames 0 twoFrames)[0]? = some (.replicate 24 0, aesIv 1 1) := by decide
  have hsecond : (sendFrames 0 twoFrames)[1]? = some (.replicate 24 0, aesIv 2 0) := by decide
  refine ⟨_, _, hfirst, hsecond, fun h => ?_⟩
  have heq := (ccmA_sendFrames_eq_iff hok 0 hfirst hsecond (by decide) (by decide)).mp h
  exact absurd heq.2.2.2 (by decide)

/-! ## Delivery -/

/-- A station that sends group-addressed frames, the bytes behind the headers of what it has sent,
and a station that receives them. -/
structure GroupNet where
  txPn : BitVec 64
  sent : List (BitVec 64)
  rx : PnState

inductive GroupEvent where
  | send
  /-- The frame in place `i` arrives, for the first time or again, and is put into the
  `recv_frame`. -/
  | deliver (i frame : ℕ)
  /-- The `recv_frame` is used for a frame that is not a group-addressed data frame. -/
  | use (frame : ℕ) (encrypt : SecurityType)

/-- A frame that is sent as a `_AES_` frame, and not altered. -/
def groupFrame (iv : BitVec 64) (frame : ℕ) : GroupFrame where
  frame := frame
  iv := iv
  privacy := true
  algo := .aes
  hdrOk := true
  decrypted := true

def groupStep (keyIdx : Byte) (s : GroupNet) : GroupEvent → Option GroupNet
  | .send =>
    let r := updateAttribSecIvInfo .aes true keyIdx s.txPn
    some { s with txPn := r.2, sent := s.sent ++ [ivWord r.1] }
  | .deliver i frame => s.sent[i]?.map fun iv =>
      { s with rx := (validateGroupFrame true s.rx (groupFrame iv frame)).2 }
  | .use frame encrypt => some { s with
      rx := { s.rx with encrypt := Function.update s.rx.encrypt frame encrypt } }

/-- The key is installed at both stations, with the same number. -/
def initGroup (keyIdx : Byte) (seq : BitVec 64) : GroupNet where
  txPn := seq
  sent := []
  rx := { initPn with ivSeq := Function.update initPn.ivSeq (keyIdx.toNat % 4) seq }

/-- No number is used again, the frames that may arrive are not further apart than half the numbers,
and the attribute of the `recv_frame` is that of a `_AES_` frame. -/
def GroupNetOk (s : GroupNet) : GroupEvent → Prop
  | .send => s.txPn.toNat + 1 < 2 ^ 48 ∧ s.sent.length < 2 ^ 47
  | .deliver _ frame => s.rx.encrypt frame = .aes
  | .use _ _ => True

instance (s : GroupNet) (e : GroupEvent) : Decidable (GroupNetOk s e) :=
  match e with
  | .send => inferInstanceAs (Decidable (_ ∧ _))
  | .deliver _ frame => inferInstanceAs (Decidable (s.rx.encrypt frame = .aes))
  | .use _ _ => isTrue trivial

/-! ### What arrives -/

theorem toNat_keyByte (keyidx : Byte) :
    (0x20 ||| (keyidx &&& 0x3) <<< 6 : Byte).toNat = 32 + 64 * (keyidx.toNat % 4) := by
  have hall : ∀ k : Fin 256, (0x20 ||| (BitVec.ofNat 8 k.val &&& 0x3) <<< 6 : Byte).toNat =
      32 + 64 * (k.val % 4) := by
    decide +kernel
  have h := hall ⟨keyidx.toNat, keyidx.isLt⟩
  rwa [BitVec.ofNat_toNat, BitVec.setWidth_eq] at h

/-- The word that arrives: the low bytes of the number, the identifier of the key, and the high
bytes. -/
theorem toNat_ivWord_aesIv (pn : BitVec 64) (keyidx : Byte) :
    (ivWord (aesIv pn keyidx)).toNat = pn.toNat % 2 ^ 16 + 2 ^ 29 +
      2 ^ 30 * (keyidx.toNat % 4) + 2 ^ 32 * (pn.toNat / 2 ^ 16 % 2 ^ 32) := by
  have hkey := toNat_keyByte keyidx
  have hzero : (0 : Byte).toNat = 0 := rfl
  have hlow : pn.toNat % 2 ^ 16 =
      pn.toNat / 256 ^ 0 % 2 ^ 8 + 256 * (pn.toNat / 256 ^ 1 % 2 ^ 8) := by
    omega
  have hhigh : pn.toNat / 2 ^ 16 % 2 ^ 32 = pn.toNat / 256 ^ 2 % 2 ^ 8 +
      256 * (pn.toNat / 256 ^ 3 % 2 ^ 8 + 256 * (pn.toNat / 256 ^ 4 % 2 ^ 8 +
        256 * (pn.toNat / 256 ^ 5 % 2 ^ 8))) := by
    omega
  have hlt (i : ℕ) : pn.toNat / 256 ^ i % 2 ^ 8 < 256 := Nat.mod_lt _ (by decide)
  have hword {b0 b1 b2 b3 b4 b5 k : ℕ} (h0 : b0 < 256) (h1 : b1 < 256) (h2 : b2 < 256)
      (h3 : b3 < 256) (h4 : b4 < 256) (h5 : b5 < 256) (hk : k < 4) :
      (b0 + 256 * (b1 + 256 * (0 + 256 * (32 + 64 * k + 256 * (b2 + 256 * (b3 + 256 * (b4 + 256 *
        (b5 + 256 * 0)))))))) % 2 ^ 64 = b0 + 256 * b1 + 2 ^ 29 + 2 ^ 30 * k +
          2 ^ 32 * (b2 + 256 * (b3 + 256 * (b4 + 256 * b5))) := by
    omega
  -- the digits become atoms: `hword` is linear in them
  rw [hlow, hhigh]
  simp only [ivWord, aesIv, ofLe, toNat_tsc, hkey, hzero, BitVec.toNat_ofNat]
  exact hword (hlt 0) (hlt 1) (hlt 2) (hlt 3) (hlt 4) (hlt 5) (Nat.mod_lt _ (by decide))

theorem toNat_ccmph2Pn (ch : BitVec 64) :
    (ccmph2Pn ch).toNat = ch.toNat % 2 ^ 16 + 2 ^ 16 * (ch.toNat / 2 ^ 32) := by
  have hmask : ∀ i < 64, (0xffffffff00000000#64).getLsbD i = decide (32 ≤ i) := by decide
  have hhigh : (ch &&& 0xffffffff00000000#64) >>> 16 = (ch >>> 32) <<< 16 := by
    apply BitVec.eq_of_getLsbD_eq
    intro i hi
    rw [BitVec.getLsbD_ushiftRight, BitVec.getLsbD_and, BitVec.getLsbD_shiftLeft,
      BitVec.getLsbD_ushiftRight]
    by_cases h64 : 16 + i < 64
    · rw [hmask _ h64]
      by_cases h16 : 16 ≤ i
      · have hadd : 32 + (i - 16) = 16 + i := by omega
        rw [hadd, decide_eq_true (by omega), decide_eq_true hi, decide_eq_false (by omega)]
        simp
      · rw [decide_eq_false (by omega), decide_eq_true (by omega : i < 16)]
        simp
    · -- behind the highest bit
      rw [BitVec.getLsbD_of_ge ch _ (by omega), BitVec.getLsbD_of_ge ch _ (by omega)]
      simp
  -- the two halves have no bit in common, so that `or` is a sum
  have hlt := ch.isLt
  have hlow : (ch &&& 0x000000000000ffff#64).toNat = ch.toNat % 2 ^ 16 := by
    rw [BitVec.toNat_and]
    exact Nat.and_two_pow_sub_one_eq_mod _ 16
  have hshift : ((ch >>> 32) <<< 16).toNat = 2 ^ 16 * (ch.toNat / 2 ^ 32) := by
    rw [BitVec.toNat_shiftLeft, BitVec.toNat_ushiftRight, Nat.shiftRight_eq_div_pow,
      Nat.shiftLeft_eq]
    omega
  rw [ccmph2Pn, hhigh, BitVec.toNat_or, hlow, hshift, Nat.or_comm,
    ← Nat.two_pow_add_eq_or_of_lt (Nat.mod_lt _ (by decide)), Nat.add_comm]

theorem ccmph2Keyid_eq (ch : BitVec 64) : ccmph2Keyid ch = ch.toNat / 2 ^ 30 % 4 := by
  have hmask : (0x00000000c0000000#64) >>> 30 = 3#64 := by decide
  rw [ccmph2Keyid, BitVec.ushiftRight_and_distrib, hmask, BitVec.toNat_and,
    BitVec.toNat_ushiftRight, Nat.shiftRight_eq_div_pow]
  exact Nat.and_two_pow_sub_one_eq_mod _ 2

/-- A number that is not further than half the numbers from the counter passes the check exactly if
it is ahead. -/
theorem validPnChk_iff_of_near {new old : BitVec 64} (hnew : new.toNat < 2 ^ 48)
    (hold : old.toNat < 2 ^ 48) (hpos : 0 < new.toNat) (hahead : new.toNat ≤ old.toNat + 2 ^ 47)
    (hbehind : old.toNat < new.toNat + 2 ^ 47) :
    validPnChk new old = true ↔ old.toNat < new.toNat := by
  rw [validPnChk, Bool.or_eq_true, pnLessChk_iff hold hnew, decide_eq_true_eq]
  constructor
  · rintro (rfl | h)
    · exact hpos
    · omega
  · exact fun h => Or.inr (Or.inl ⟨h, hahead⟩)

/-- The counters and the attribute behind an accepted frame. -/
def acceptPn (rx : PnState) (keyId frame : ℕ) (pn : BitVec 64) : PnState where
  ivSeq := Function.update rx.ivSeq keyId pn
  encrypt := Function.update rx.encrypt frame .aes
  accepted := Function.update rx.accepted keyId (rx.accepted keyId ++ [pn.toNat])

theorem toNat_currPn_of_ivSeq {rx : PnState} {keyId : ℕ} {pn : BitVec 64}
    (h : rx.ivSeq keyId = pn) (hlt : pn.toNat < 2 ^ 48) : (rx.currPn keyId).toNat = pn.toNat := by
  rw [PnState.currPn, h, toNat_and_mask hlt]

/-- What becomes of a frame, in a `recv_frame` with the right attribute. -/
theorem validateGroupFrame_groupFrame {rx : PnState} {frame : ℕ} (haes : rx.encrypt frame = .aes)
    (iv : BitVec 64) :
    validateGroupFrame true rx (groupFrame iv frame) =
      if validPnChk (ccmph2Pn iv) (rx.currPn (ccmph2Keyid iv)) = true then
        (.success, acceptPn rx (ccmph2Keyid iv) frame (ccmph2Pn iv))
      else (.fail, rx) := by
  have hpn : (groupFrame iv frame).pn = ccmph2Pn iv := rfl
  have hkey : (groupFrame iv frame).keyId = ccmph2Keyid iv := rfl
  have hattr : rx.encrypt (groupFrame iv frame).frame = .aes := haes
  have hhdr : (!(groupFrame iv frame).hdrOk) ≠ true := Bool.false_ne_true
  rw [validateGroupFrame, if_neg hhdr, recvBcastPnDecache, if_pos ⟨hattr, rfl⟩, hpn, hkey]
  cases validPnChk (ccmph2Pn iv) (rx.currPn (ccmph2Keyid iv)) with
  | true => rfl
  | false => rfl

/-! ### Runs -/

/-- The places of the accepted frames increase, and the counter is at the last one. -/
structure Accepted (keyId seq : ℕ) (s : GroupNet) (idx : List ℕ) : Prop where
  accepted : s.rx.accepted keyId = idx.map (seq + 1 + ·)
  increasing : idx.Pairwise (· < ·)
  sent : ∀ i ∈ idx, i < s.sent.length
  le_counter : ∀ i ∈ idx, seq + 1 + i ≤ (s.rx.currPn keyId).toNat
  counter : (s.rx.currPn keyId).toNat = seq ∨ ∃ i ∈ idx, (s.rx.currPn keyId).toNat = seq + 1 + i

/-- What has been sent has the numbers behind `seq`, in order. -/
structure GroupInv (keyId seq : ℕ) (s : GroupNet) : Prop where
  txPn : s.txPn.toNat = seq + s.sent.length
  lt : seq + s.sent.length < 2 ^ 48
  length_sent : s.sent.length ≤ 2 ^ 47
  number : ∀ i iv, s.sent[i]? = some iv →
    (ccmph2Pn iv).toNat = seq + 1 + i ∧ ccmph2Keyid iv = keyId
  accepted : ∃ idx, Accepted keyId seq s idx

section Net

variable {keyId seq : ℕ} {s : GroupNet} {idx : List ℕ}

/-- The counter is behind a frame exactly if all the accepted ones are. -/
theorem Accepted.counter_lt_iff (h : Accepted keyId seq s idx) (i : ℕ) :
    (s.rx.currPn keyId).toNat < seq + 1 + i ↔ ∀ a ∈ idx, a < i := by
  constructor
  · intro hlt a ha
    have hle := h.le_counter a ha
    omega
  · intro hall
    obtain hcurr | ⟨a, ha, hcurr⟩ := h.counter
    · omega
    · have hlt := hall a ha
      omega

/-- A frame is accepted exactly if it is behind all the accepted ones. -/
theorem GroupInv.deliver (hinv : GroupInv keyId seq s) (hacc : Accepted keyId seq s idx)
    (keyIdx : Byte) {i frame : ℕ} (hi : i < s.sent.length) (haes : s.rx.encrypt frame = .aes) :
    ∃ s', groupStep keyIdx s (.deliver i frame) = some s' ∧ s'.txPn = s.txPn ∧ s'.sent = s.sent ∧
      Accepted keyId seq s' (if ∀ a ∈ idx, a < i then idx ++ [i] else idx) := by
  have hsent : s.sent[i]? = some s.sent[i] := List.getElem?_eq_getElem hi
  obtain ⟨hpn, hkey⟩ := hinv.number i _ hsent
  have hlt := hinv.lt
  have hlength := hinv.length_sent
  have hbound := toNat_currPn_lt s.rx keyId
  -- the counter is at a frame that has been sent
  have hcurr : seq ≤ (s.rx.currPn keyId).toNat ∧
      (s.rx.currPn keyId).toNat ≤ seq + s.sent.length := by
    obtain hcurr | ⟨a, ha, hcurr⟩ := hacc.counter
    · omega
    · have hsent := hacc.sent a ha
      omega
  have hvalid := validPnChk_iff_of_near (toNat_ccmph2Pn_lt s.sent[i]) hbound (by omega) (by omega)
    (by omega)
  rw [hpn, hacc.counter_lt_iff] at hvalid
  rw [groupStep, hsent, Option.map_some, validateGroupFrame_groupFrame haes, hkey]
  refine ⟨_, rfl, rfl, rfl, ?_⟩
  by_cases hnew : ∀ a ∈ idx, a < i
  · rw [if_pos hnew, if_pos (hvalid.mpr hnew)]
    have hcounter : ((acceptPn s.rx keyId frame (ccmph2Pn s.sent[i])).currPn keyId).toNat =
        seq + 1 + i :=
      (toNat_currPn_of_ivSeq (Function.update_self _ _ _) (toNat_ccmph2Pn_lt _)).trans hpn
    constructor
    · change Function.update s.rx.accepted keyId _ keyId = _
      rw [Function.update_self, hacc.accepted, List.map_append, hpn]
      rfl
    · refine List.pairwise_append.mpr ⟨hacc.increasing, List.pairwise_singleton _ _, ?_⟩
      intro a ha b hb
      rw [List.mem_singleton.mp hb]
      exact hnew a ha
    · intro a ha
      obtain ha | ha := List.mem_append.mp ha
      · exact hacc.sent a ha
      · rwa [List.mem_singleton.mp ha]
    · intro a ha
      refine Nat.le_trans ?_ hcounter.ge
      obtain ha | ha := List.mem_append.mp ha
      · exact Nat.add_le_add_left (Nat.le_of_lt (hnew a ha)) _
      · rw [List.mem_singleton.mp ha]
    · exact Or.inr ⟨i, List.mem_append_right _ List.mem_cons_self, hcounter⟩
  · -- it was accepted before, or is older
    rw [if_neg hnew, if_neg fun h => hnew (hvalid.mp h)]
    exact ⟨hacc.accepted, hacc.increasing, hacc.sent, hacc.le_counter, hacc.counter⟩

/-- A frame is sent with the next number. -/
theorem GroupInv.send {keyIdx : Byte} (hinv : GroupInv (keyIdx.toNat % 4) seq s)
    (hok : GroupNetOk s .send) :
    ∃ s', groupStep keyIdx s .send = some s' ∧ GroupInv (keyIdx.toNat % 4) seq s' := by
  obtain ⟨hlast, hhalf⟩ := hok
  have hnext := toNat_nextPn_of_lt hlast
  have htx := hinv.txPn
  obtain ⟨idx, hacc⟩ := hinv.accepted
  have haead := updateAttribSecIvInfo_of_isAead (show IsAead .aes from List.mem_cons_self) true
    keyIdx s.txPn
  refine ⟨_, rfl, ?_⟩
  rw [haead]
  constructor
  · rw [List.length_append, List.length_singleton]
    dsimp only
    omega
  · rw [List.length_append, List.length_singleton]
    omega
  · rw [List.length_append, List.length_singleton]
    omega
  · intro i iv hi
    obtain hlt | hge := Nat.lt_or_ge i s.sent.length
    · rw [List.getElem?_append_left hlt] at hi
      exact hinv.number i iv hi
    · -- the new one
      rw [List.getElem?_append_right hge, List.getElem?_singleton,
        Option.ite_none_right_eq_some, Option.some.injEq] at hi
      obtain ⟨hzero, rfl⟩ := hi
      have hword := toNat_ivWord_aesIv (nextPn s.txPn) keyIdx
      rw [if_pos rfl, toNat_ccmph2Pn, ccmph2Keyid_eq, hword]
      omega
  · refine ⟨idx, hacc.accepted, hacc.increasing, fun i hi => ?_, hacc.le_counter, hacc.counter⟩
    rw [List.length_append]
    exact Nat.lt_add_right _ (hacc.sent i hi)

theorem GroupInv.step {keyIdx : Byte} {s' : GroupNet} {e : GroupEvent}
    (hinv : GroupInv (keyIdx.toNat % 4) seq s) (hok : GroupNetOk s e)
    (hs : groupStep keyIdx s e = some s') : GroupInv (keyIdx.toNat % 4) seq s' := by
  cases e with
  | send =>
    obtain ⟨t, ht, hinv'⟩ := hinv.send hok
    rw [hs, Option.some.injEq] at ht
    rwa [ht]
  | deliver i frame =>
    obtain ⟨idx, hacc⟩ := hinv.accepted
    have hi : i < s.sent.length := by
      obtain ⟨iv, hiv, -⟩ := Option.map_eq_some_iff.mp hs
      exact (List.getElem?_eq_some_iff.mp hiv).1
    obtain ⟨t, ht, htx, hsent, hacc'⟩ := hinv.deliver hacc keyIdx hi hok
    rw [hs, Option.some.injEq] at ht
    rw [ht]
    exact ⟨htx ▸ hsent ▸ hinv.txPn, hsent ▸ hinv.lt, hsent ▸ hinv.length_sent,
      hsent ▸ hinv.number, _, hacc'⟩
  | use frame encrypt =>
    obtain rfl := Option.some.inj hs
    obtain ⟨idx, hacc⟩ := hinv.accepted
    exact ⟨hinv.txPn, hinv.lt, hinv.length_sent, hinv.number, idx, hacc.accepted, hacc.increasing,
      hacc.sent, hacc.le_counter, hacc.counter⟩

theorem groupInv_init (keyIdx : Byte) {seq : BitVec 64} (hseq : seq.toNat < 2 ^ 48) :
    GroupInv (keyIdx.toNat % 4) seq.toNat (initGroup keyIdx seq) := by
  have hcurr : ((initGroup keyIdx seq).rx.currPn (keyIdx.toNat % 4)).toNat = seq.toNat :=
    toNat_currPn_of_ivSeq (Function.update_self _ _ _) hseq
  refine ⟨rfl, hseq, Nat.zero_le _, fun i iv hi => ?_, [], rfl, List.Pairwise.nil, ?_, ?_,
    Or.inl hcurr⟩
  · exact absurd hi (Option.some_ne_none iv).symm
  · exact fun i hi => absurd hi List.not_mem_nil
  · exact fun i hi => absurd hi List.not_mem_nil

/-- In every run: the frames that the receiver has accepted are frames that were sent, in the order
in which they were sent and each of them once; and a frame that arrives is accepted exactly if it
was sent behind all of these. -/
theorem run_group_once {keyIdx : Byte} {seq : BitVec 64} (hseq : seq.toNat < 2 ^ 48)
    {es : List GroupEvent}
    (hok : Guarded (groupStep keyIdx) GroupNetOk (initGroup keyIdx seq) es)
    (h : run (groupStep keyIdx) (initGroup keyIdx seq) es = some s) :
    ∃ idx : List ℕ, idx.Pairwise (· < ·) ∧ (∀ i ∈ idx, i < s.sent.length) ∧
      s.rx.accepted (keyIdx.toNat % 4) = idx.map (seq.toNat + 1 + ·) ∧
      ∀ i frame, i < s.sent.length → s.rx.encrypt frame = .aes →
        ∃ s', groupStep keyIdx s (.deliver i frame) = some s' ∧
          s'.rx.accepted (keyIdx.toNat % 4) =
            (if ∀ a ∈ idx, a < i then idx ++ [i] else idx).map (seq.toNat + 1 + ·) := by
  have hinv : GroupInv (keyIdx.toNat % 4) seq.toNat s :=
    run_preserves (GroupInv (keyIdx.toNat % 4) seq.toNat)
      (fun _ _ _ hinv hoke hs => hinv.step hoke hs) (groupInv_init keyIdx hseq) hok h
  obtain ⟨idx, hacc⟩ := hinv.accepted
  refine ⟨idx, hacc.increasing, hacc.sent, hacc.accepted, fun i frame hi haes => ?_⟩
  obtain ⟨s', hs', -, -, hacc'⟩ := hinv.deliver hacc keyIdx hi haes
  exact ⟨s', hs', hacc'.accepted⟩

/-- Two frames, of which the second arrives first and again behind the first one. -/
def groupEvents : List GroupEvent :=
  [.send, .send, .use 0 .aes, .deliver 1 0, .deliver 0 0, .deliver 1 0]

theorem run_group_once_two :
    ∃ s, run (groupStep 1) (initGroup 1 7) groupEvents = some s ∧ s.rx.accepted 1 = [9] ∧
      ∃ idx : List ℕ, idx.Pairwise (· < ·) ∧ s.rx.accepted 1 = idx.map (8 + ·) := by
  have hview : (run (groupStep 1) (initGroup 1 7) groupEvents).map (fun s => s.rx.accepted 1) =
      some [9] := by decide +kernel
  obtain ⟨s, hrun, hacc⟩ := Option.map_eq_some_iff.mp hview
  obtain ⟨idx, hpair, -, hidx, -⟩ := run_group_once (by decide) (by decide +kernel) hrun
  exact ⟨s, hrun, hacc, idx, hpair, hidx⟩

end Net

end Rtl88x2cu.Core
