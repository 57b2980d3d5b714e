import Rtl88x2cu.Core.RecvFrame

/-!
# Packet numbers of group-addressed frames

`recv_bcast_pn_decache` keeps, for each key id, the packet number of the last group-addressed frame
(`iv_seq`), and rejects a frame whose number is not ahead of it. It is called by
`validate_recv_data_frame` (`core/rtw_recv.c`), before the frame is decrypted and before its
`encrypt` attribute is set, so the attribute is that of the frame the `recv_frame` was last used
for.

`run_accepted_increasing` says when the numbers that are accepted under one key increase.
-/

namespace Rtl88x2cu.Core

/-! ## Model -/

/-- `enum security_type`. -/
inductive SecurityType where
  | noPrivacy
  | wep40
  | tkip
  | tkipWtmic
  | aes
  | wep104
  | sms4
  | gcmp
  | ccmp256
  | gcmp256
  | bipCmac128
  | bipGmac128
  | bipGmac256
  | bipCmac256
  deriving DecidableEq, Repr

/-- `CCMPH_2_PN`. -/
def ccmph2Pn (ch : BitVec 64) : BitVec 64 :=
  (ch &&& 0x000000000000ffff#64) ||| ((ch &&& 0xffffffff00000000#64) >>> 16)

/-- `CCMPH_2_KEYID`. -/
def ccmph2Keyid (ch : BitVec 64) : ℕ := ((ch &&& 0x00000000c0000000#64) >>> 30).toNat

/-- `PN_LESS_CHK`. -/
def pnLessChk (a b : BitVec 64) : Bool := (a - b) &&& 0x800000000000#64 ≠ 0

/-- `VALID_PN_CHK`. -/
def validPnChk (new old : BitVec 64) : Bool := old = 0 || pnLessChk old new

/-- The replay counters of `struct security_priv`, and the `encrypt` attribute of each
`recv_frame`. -/
structure PnState where
  ivSeq : ℕ → BitVec 64
  encrypt : ℕ → SecurityType
  /-- The packet numbers of the protected frames accepted for each key id, since a key was last
  installed there. -/
  accepted : ℕ → List ℕ

def initPn : PnState where
  ivSeq := fun _ => 0
  encrypt := fun _ => .noPrivacy
  accepted := fun _ => []

/-- A group-addressed data frame: the `recv_frame` it is in, the eight bytes after its header,
whether it is protected, the cipher of `GET_ENCRY_ALGO`; whether it passes the checks before
`recv_bcast_pn_decache`, and whether it is decrypted. -/
structure GroupFrame where
  frame : ℕ
  iv : BitVec 64
  privacy : Bool
  algo : SecurityType
  hdrOk : Bool
  decrypted : Bool
  deriving DecidableEq

def GroupFrame.pn (g : GroupFrame) : BitVec 64 := ccmph2Pn g.iv

def GroupFrame.keyId (g : GroupFrame) : ℕ := ccmph2Keyid g.iv

/-- The `curr_pn` of `recv_bcast_pn_decache`. -/
def PnState.currPn (s : PnState) (keyId : ℕ) : BitVec 64 := s.ivSeq keyId &&& 0x0000ffffffffffff#64

/-- `recv_bcast_pn_decache`, on an interface that is a station if `isSta`. -/
def recvBcastPnDecache (isSta : Bool) (s : PnState) (g : GroupFrame) : Ret × PnState :=
  if s.encrypt g.frame = .aes ∧ isSta then
    if !validPnChk g.pn (s.currPn g.keyId) then (.fail, s)
    else (.success, { s with ivSeq := Function.update s.ivSeq g.keyId g.pn })
  else
    (.success, s)

/-- The part of `validate_recv_data_frame` for the packet numbers. -/
def validateGroupFrame (isSta : Bool) (s : PnState) (g : GroupFrame) : Ret × PnState :=
  if !g.hdrOk then
    (.fail, s)
  else
    match recvBcastPnDecache isSta s g with
    | (.fail, s) => (.fail, s)
    | (_, s) => (.success, { s with
        encrypt := Function.update s.encrypt g.frame (if g.privacy then g.algo else .noPrivacy)
        accepted := if g.privacy then
            Function.update s.accepted g.keyId (s.accepted g.keyId ++ [g.pn.toNat])
          else s.accepted })

inductive PnEvent where
  /-- A group key is installed by `rtw_cfg80211_set_encryption`; `seq` is the number to start
  from. -/
  | install (algo : SecurityType) (keyId : ℕ) (seq : BitVec 64)
  /-- The `recv_frame` is used for a frame that is not a group-addressed data frame. -/
  | use (frame : ℕ) (encrypt : SecurityType)
  | group (g : GroupFrame)
  deriving DecidableEq

def pnStep (isSta : Bool) (s : PnState) : PnEvent → Option PnState
  | .install algo keyId seq => some { s with
      ivSeq := if algo ∈ [.tkip, .aes, .gcmp] ∧ keyId < 4 then Function.update s.ivSeq keyId seq
        else s.ivSeq
      accepted := Function.update s.accepted keyId [] }
  | .use frame encrypt => some { s with encrypt := Function.update s.encrypt frame encrypt }
  | .group g => some (validateGroupFrame isSta s g).2

/-! ## Half windows -/

theorem toNat_ccmph2Pn_lt (ch : BitVec 64) : (ccmph2Pn ch).toNat < 2 ^ 48 := by
  unfold ccmph2Pn
  rw [BitVec.toNat_or]
  apply Nat.or_lt_two_pow
  · rw [BitVec.toNat_and]
    exact Nat.lt_of_le_of_lt Nat.and_le_right (by decide)
  · rw [BitVec.toNat_ushiftRight, Nat.shiftRight_eq_div_pow]
    have hlt := (ch &&& 0xffffffff00000000#64).isLt
    omega

theorem toNat_currPn_lt (s : PnState) (keyId : ℕ) : (s.currPn keyId).toNat < 2 ^ 48 := by
  unfold PnState.currPn
  rw [BitVec.toNat_and]
  exact Nat.lt_of_le_of_lt Nat.and_le_right (by decide)

/-- Bit 47 of the difference: the number is ahead by at most half the numbers, or behind by at least
as many. -/
theorem pnLessChk_iff {a b : BitVec 64} (ha : a.toNat < 2 ^ 48) (hb : b.toNat < 2 ^ 48) :
    pnLessChk a b = true ↔
      (a.toNat < b.toNat ∧ b.toNat ≤ a.toNat + 2 ^ 47) ∨ b.toNat + 2 ^ 47 ≤ a.toNat := by
  have hbit : pnLessChk a b = (a - b).getLsbD 47 := by
    have hmask : (0x800000000000#64 : BitVec 64) = BitVec.twoPow 64 47 := by decide
    unfold pnLessChk
    rw [hmask, BitVec.and_twoPow]
    cases (a - b).getLsbD 47 <;> decide
  rw [hbit, ← BitVec.testBit_toNat, Nat.testBit_eq_decide_div_mod_eq, decide_eq_true_iff,
    BitVec.toNat_sub]
  omega

/-- What passes the check is ahead, or meets a zero counter, or is half the numbers behind. -/
theorem lt_of_validPnChk {new old : BitVec 64} (hnew : new.toNat < 2 ^ 48)
    (hold : old.toNat < 2 ^ 48) (h : validPnChk new old = true)
    (hbehind : ¬ new.toNat + 2 ^ 47 ≤ old.toNat) (hzero : ¬ (old = 0 ∧ new = 0)) :
    old.toNat < new.toNat := by
  simp only [validPnChk, Bool.or_eq_true, decide_eq_true_eq] at h
  obtain rfl | hless := h
  · have hne : new.toNat ≠ 0 := fun h0 => hzero ⟨rfl, BitVec.eq_of_toNat_eq h0⟩
    exact Nat.pos_of_ne_zero hne
  · exact ((pnLessChk_iff hold hnew).mp hless).elim And.left fun h => absurd h hbehind

/-! ## Runs -/

/-- A protected frame finds the attribute of an earlier frame protected with `_AES_`, on a station.
A frame that then passes the check is not half the numbers behind, does not repeat number zero, and
is decrypted. -/
def GroupOk (isSta : Bool) (s : PnState) (g : GroupFrame) : Prop :=
  g.hdrOk = true →
    (g.privacy = true → s.encrypt g.frame = .aes ∧ isSta = true) ∧
    (s.encrypt g.frame = .aes → isSta = true → validPnChk g.pn (s.currPn g.keyId) = true →
      ¬ g.pn.toNat + 2 ^ 47 ≤ (s.currPn g.keyId).toNat ∧
      (s.currPn g.keyId = 0 → g.pn = 0 → s.accepted g.keyId = []) ∧
      (g.decrypted = true ∨ s.ivSeq g.keyId = g.pn))

instance (isSta : Bool) (s : PnState) (g : GroupFrame) : Decidable (GroupOk isSta s g) :=
  inferInstanceAs (Decidable (g.hdrOk = true →
    (g.privacy = true → s.encrypt g.frame = .aes ∧ isSta = true) ∧
    (s.encrypt g.frame = .aes → isSta = true → validPnChk g.pn (s.currPn g.keyId) = true →
      ¬ g.pn.toNat + 2 ^ 47 ≤ (s.currPn g.keyId).toNat ∧
      (s.currPn g.keyId = 0 → g.pn = 0 → s.accepted g.keyId = []) ∧
      (g.decrypted = true ∨ s.ivSeq g.keyId = g.pn))))

def PnOk (isSta : Bool) (s : PnState) : PnEvent → Prop
  | .group g => GroupOk isSta s g
  | _ => True

instance (isSta : Bool) (s : PnState) (e : PnEvent) : Decidable (PnOk isSta s e) :=
  match e with
  | .group g => inferInstanceAs (Decidable (GroupOk isSta s g))
  | .install _ _ _ | .use _ _ => isTrue trivial

/-- The numbers accepted for a key increase, up to its counter. -/
def CounterOk (s : PnState) : Prop :=
  ∀ keyId, (s.accepted keyId).Pairwise (· < ·) ∧
    ∀ pn ∈ s.accepted keyId, pn ≤ (s.currPn keyId).toNat

variable {isSta : Bool} {s s' : PnState} {g : GroupFrame}

/-- What the validation of a frame does. -/
theorem validateGroupFrame_cases (isSta : Bool) (s : PnState) (g : GroupFrame) :
    ((validateGroupFrame isSta s g).1 = .fail ∧ (validateGroupFrame isSta s g).2 = s) ∨
    (g.hdrOk = true ∧ (validateGroupFrame isSta s g).1 = .success ∧
      (s.encrypt g.frame = .aes → isSta = true → validPnChk g.pn (s.currPn g.keyId) = true) ∧
      (validateGroupFrame isSta s g).2.ivSeq =
        (if s.encrypt g.frame = .aes ∧ isSta then Function.update s.ivSeq g.keyId g.pn
          else s.ivSeq) ∧
      (validateGroupFrame isSta s g).2.accepted =
        if g.privacy then Function.update s.accepted g.keyId (s.accepted g.keyId ++ [g.pn.toNat])
        else s.accepted) := by
  unfold validateGroupFrame recvBcastPnDecache
  cases hhdr : g.hdrOk with
  | false => exact Or.inl ⟨rfl, rfl⟩
  | true =>
    by_cases haes : s.encrypt g.frame = .aes ∧ isSta
    · cases hvalid : validPnChk g.pn (s.currPn g.keyId) with
      | false =>
        refine Or.inl ?_
        simp [haes]
      | true =>
        refine Or.inr ⟨rfl, ?_⟩
        simp [haes]
    · refine Or.inr ⟨rfl, ?_⟩
      simp only [haes, Bool.not_true, Bool.false_eq_true, if_false, true_and]
      exact ⟨fun henc hsta => absurd ⟨henc, hsta⟩ haes, trivial⟩

theorem counterOk_init : CounterOk initPn := fun _ => by simp [initPn]

theorem toNat_and_mask {pn : BitVec 64} (h : pn.toNat < 2 ^ 48) :
    (pn &&& 0x0000ffffffffffff#64).toNat = pn.toNat := by
  rw [BitVec.toNat_and]
  exact Nat.and_two_pow_sub_one_of_lt_two_pow h

/-- A number that passes the check is ahead of the counter, or the first one, and zero. -/
theorem GroupOk.ahead (hok : GroupOk isSta s g) (hhdr : g.hdrOk = true)
    (haes : s.encrypt g.frame = .aes) (hsta : isSta = true)
    (hvalid : validPnChk g.pn (s.currPn g.keyId) = true) :
    (s.currPn g.keyId).toNat < g.pn.toNat ∨
      (s.currPn g.keyId).toNat = g.pn.toNat ∧ s.accepted g.keyId = [] := by
  obtain ⟨hbehind, hfirst, -⟩ := (hok hhdr).2 haes hsta hvalid
  by_cases hzero : s.currPn g.keyId = 0 ∧ g.pn = 0
  · exact Or.inr ⟨by rw [hzero.1, hzero.2], hfirst hzero.1 hzero.2⟩
  · exact Or.inl (lt_of_validPnChk (toNat_ccmph2Pn_lt g.iv) (toNat_currPn_lt s _) hvalid hbehind
      hzero)

/-- An accepted number is ahead of all that were accepted before it. -/
theorem CounterOk.group (h : CounterOk s) (hok : GroupOk isSta s g) :
    CounterOk (validateGroupFrame isSta s g).2 := by
  obtain ⟨-, heq⟩ | ⟨hhdr, -, hvalid, hiv, hacc⟩ := validateGroupFrame_cases isSta s g
  · rw [heq]
    exact h
  intro k
  obtain ⟨hpair, hle⟩ := h k
  by_cases haes : s.encrypt g.frame = .aes ∧ isSta
  · rw [if_pos haes] at hiv
    by_cases hk : k = g.keyId
    · subst hk
      have hcurr : ((validateGroupFrame isSta s g).2.currPn g.keyId).toNat = g.pn.toNat := by
        rw [PnState.currPn, hiv, Function.update_self]
        exact toNat_and_mask (toNat_ccmph2Pn_lt g.iv)
      have hahead := hok.ahead hhdr haes.1 haes.2 (hvalid haes.1 haes.2)
      have hle' : ∀ pn ∈ s.accepted g.keyId, pn ≤ g.pn.toNat := fun pn hpn =>
        Nat.le_trans (hle pn hpn) (hahead.elim Nat.le_of_lt fun heq => Nat.le_of_eq heq.1)
      rw [hcurr, hacc]
      split
      · -- a protected frame
        rw [Function.update_self]
        refine ⟨List.pairwise_append.mpr ⟨hpair, List.pairwise_singleton _ _, ?_⟩, ?_⟩
        · intro pn hpn pn' hpn'
          rw [List.mem_singleton.mp hpn']
          obtain hlt | ⟨-, hnil⟩ := hahead
          · exact Nat.lt_of_le_of_lt (hle pn hpn) hlt
          · rw [hnil] at hpn
            cases hpn
        · intro pn hpn
          obtain hpn | hpn := List.mem_append.mp hpn
          · exact hle' pn hpn
          · exact Nat.le_of_eq (List.mem_singleton.mp hpn)
      · exact ⟨hpair, hle'⟩
    · have hacc' : (validateGroupFrame isSta s g).2.accepted k = s.accepted k := by
        rw [hacc]
        split
        · exact Function.update_of_ne hk ..
        · rfl
      have hcurr : (validateGroupFrame isSta s g).2.currPn k = s.currPn k := by
        rw [PnState.currPn, hiv, Function.update_of_ne hk]
        rfl
      rw [hacc', hcurr]
      exact ⟨hpair, hle⟩
  · -- the check is skipped, so the frame is not protected
    have hplain : g.privacy ≠ true := fun hpriv => haes ((hok hhdr).1 hpriv)
    rw [if_neg haes] at hiv
    rw [if_neg hplain] at hacc
    rw [hacc, PnState.currPn, hiv]
    exact ⟨hpair, hle⟩

theorem CounterOk.step (h : CounterOk s) {e : PnEvent} (hok : PnOk isSta s e)
    (hs : pnStep isSta s e = some s') : CounterOk s' := by
  cases e with
  | install algo keyId seq =>
    obtain rfl := Option.some.inj hs
    intro k
    dsimp only
    by_cases hk : k = keyId
    · subst hk
      simp
    · obtain ⟨hpair, hle⟩ := h k
      rw [Function.update_of_ne hk]
      refine ⟨hpair, ?_⟩
      unfold PnState.currPn
      dsimp only
      split
      · rw [Function.update_of_ne hk]
        exact hle
      · exact hle
  | use frame encrypt =>
    obtain rfl := Option.some.inj hs
    exact h
  | group g =>
    obtain rfl := Option.some.inj hs
    exact h.group hok

/-- A frame that is rejected or not decrypted leaves the counters alone. -/
theorem GroupOk.counters (hok : GroupOk isSta s g)
    (hfail : (validateGroupFrame isSta s g).1 = .fail ∨ g.decrypted = false) :
    (validateGroupFrame isSta s g).2.ivSeq = s.ivSeq := by
  obtain ⟨-, heq⟩ | ⟨hhdr, hret, hvalid, hiv, -⟩ := validateGroupFrame_cases isSta s g
  · rw [heq]
  · have hdec : g.decrypted = false := hfail.resolve_left fun h => by
      rw [hret] at h
      cases h
    rw [hiv]
    split
    next haes =>
      obtain ⟨-, -, hsame⟩ := (hok hhdr).2 haes.1 haes.2 (hvalid haes.1 haes.2)
      rw [hdec] at hsame
      rw [← hsame.resolve_left (by decide), Function.update_eq_self]
    · rfl

/-! ## Main results -/

/-- As long as every frame meets the condition: the packet numbers accepted under one key increase,
and a frame that is rejected or not decrypted leaves the replay counters alone. -/
theorem run_accepted_increasing {es : List PnEvent}
    (hok : Guarded (pnStep isSta) (PnOk isSta) initPn es)
    (h : run (pnStep isSta) initPn es = some s) :
    (∀ keyId, (s.accepted keyId).Pairwise (· < ·)) ∧
    ∀ g, GroupOk isSta s g → (validateGroupFrame isSta s g).1 = .fail ∨ g.decrypted = false →
      (validateGroupFrame isSta s g).2.ivSeq = s.ivSeq := by
  have hinv : CounterOk s := run_preserves CounterOk (fun _ _ _ hs hoke he => hs.step hoke he)
    counterOk_init hok h
  exact ⟨fun keyId => (hinv keyId).1, fun g hg hfail => hg.counters hfail⟩

/-- Number 5 under key 1, in a `recv_frame` last used for a frame protected with `_AES_`, then
number 3, which is rejected, and a frame with number 7 that is forged. -/
def groupFrames : List PnEvent :=
  [.install .aes 1 2#64, .use 0 .aes, .group ⟨0, 0x0000000040000005#64, true, .aes, true, true⟩,
    .group ⟨0, 0x0000000040000003#64, true, .aes, true, false⟩]

theorem run_accepted_increasing_two :
    ∃ s, run (pnStep true) initPn groupFrames = some s ∧ s.accepted 1 = [5] ∧
      (∀ keyId, (s.accepted keyId).Pairwise (· < ·)) ∧
      (validateGroupFrame true s ⟨0, 0x0000000040000004#64, true, .aes, true, false⟩).2.ivSeq =
        s.ivSeq := by
  have hview : (run (pnStep true) initPn groupFrames).map (fun s =>
      (s.accepted 1, decide (GroupOk true s ⟨0, 0x0000000040000004#64, true, .aes, true, false⟩))) =
      some ([5], true) := by decide +kernel
  obtain ⟨s, hrun, heq⟩ := Option.map_eq_some_iff.mp hview
  obtain ⟨hacc, hgroup⟩ := Prod.mk.inj heq
  obtain ⟨hpair, hcounters⟩ := run_accepted_increasing (by decide +kernel) hrun
  exact ⟨s, hrun, hacc, hpair, hcounters _ (of_decide_eq_true hgroup) (Or.inr rfl)⟩

/-- A frame is replayed in a `recv_frame` whose attribute is not `_AES_`; and a forged frame moves
the counter on, so that the next number is rejected. -/
theorem replayed_and_forged :
    (run (pnStep true) initPn
      [.install .aes 1 2#64, .group ⟨0, 0x0000000040000005#64, true, .aes, true, true⟩,
        .group ⟨1, 0x0000000040000005#64, true, .aes, true, true⟩]).map (fun s =>
      (s.accepted 1, decide ((s.accepted 1).Pairwise (· < ·)))) = some ([5, 5], false) ∧
    (run (pnStep true) initPn
      [.install .aes 1 2#64, .use 0 .aes,
        .group ⟨0, 0x0000040040000005#64, true, .aes, true, false⟩]).map (fun s =>
      (s.ivSeq 1, (validateGroupFrame true s ⟨0, 0x0000000040000006#64, true, .aes, true,
        true⟩).1)) =
      some (0x04000005#64, .fail) := by
  constructor <;> decide +kernel

end Rtl88x2cu.Core
