import Rtl88x2cu.Nat25.Shortcut

/-!
# Tagged frames

`rtw_br_client_tx` and `nat25_handle_frame` take the VLAN tag out of a frame, handle what is left,
and put the tag back (`core/rtw_xmit.c`, `core/rtw_br_ext.c`). `vlan_commutes_iff` says for which
frames and databases this is the handling of the frame without the tag, with the tag put in
afterwards. Where the insertion into the database fails, a frame is sent without its tag.
-/

namespace Rtl88x2cu.Nat25

open Bytes (Byte)

variable {w : ℕ} (clk : Clock w) (pl : Payload) (dhcpFlagBcast : Skb → Skb)

/-! ## What commutes -/

/-- A frame with the tag `h₀ h₁` is handled as the frame without it: the same return value and the
same database, and a frame that goes on has the tag. -/
structure SameWithTag (h₀ h₁ : Byte) (res tagged : Res w) : Prop where
  ret : tagged.ret = res.ret
  adapter : tagged.adapter = res.adapter
  skb : res.ret = 0 → tagged.skb = res.skb.vlanPush h₀ h₁

/-- `rtw_br_client_tx`, where it does not take the shortcut. -/
def TxCommutes (f : Skb) (s : Adapter w) : Prop :=
  ∀ (env : TxEnv w) (h₀ h₁ : Byte), fastEntry env.brPort f s = none →
    SameWithTag h₀ h₁ (rtwBrClientTx clk pl dhcpFlagBcast env f s)
      (rtwBrClientTx clk pl dhcpFlagBcast env (f.vlanPush h₀ h₁) s)

/-- `nat25_handle_frame`, where it does not take the shortcut. -/
def RxCommutes (f : Skb) (s : Adapter w) : Prop :=
  ∀ (env : Env w) (h₀ h₁ : Byte), rxServed f s = false →
    SameWithTag h₀ h₁ (nat25HandleFrame clk pl env f s)
      (nat25HandleFrame clk pl env (f.vlanPush h₀ h₁) s)

/-! ## Where the insertion fails -/

/-- `do_nat25`: the frame is not served by the shortcut. -/
def needsNat25 (skb : Skb) (s : Adapter w) : Bool :=
  if skb.protocol = ethPIp then
    if s.scdbMac ≠ skb.sa then (scdbFindEntry skb.sa (ipSaddr skb) s).isNone
    else s.scdbEntry.isNone
  else true

/-- The insertion returns -1: the frame is malformed, or of a protocol or a kind that is not
handled. -/
def insertRejects (skb : Skb) (addPPPoETag : Bool) : Bool :=
  match packet skb with
  | .ip => skb.len ≤ ipHdrLen skb
  | .arp => skb.be16 (ethHlen + 2) ≠ ethPIp
  | .aarp ea => aarpInsane skb ea
  | .pppoe =>
    pppoeSid skb = [0, 0] &&
      if isPadiPadr skb then addPPPoETag && (pl.addRelayTag skb).isNone else true
  | .ipv6 => ipv6Malformed skb
  | .unknown => true
  | _ => false

variable {clk pl dhcpFlagBcast} {f skb : Skb} {s : Adapter w} {env : TxEnv w}

theorem insert_ret_iff (env : Env w) :
    (nat25DbHandle clk pl .insert env skb s).ret = -1 ↔
      insertRejects pl skb s.ethBrExtInfo.addPPPoETag = true := by
  unfold nat25DbHandle insertRejects
  cases packet skb with
  | ip =>
    dsimp only [handleIp]
    by_cases hlen : skb.len ≤ ipHdrLen skb
    · simp [hlen]
    · by_cases hsaddr : ipSaddr skb = zeroIp <;> simp [hlen, hsaddr]
  | arp =>
    dsimp only [handleArp]
    by_cases hpro : skb.be16 (ethHlen + 2) = ethPIp <;> simp [hpro]
  | ipx off =>
    dsimp only [handleIpx]
    split_ifs <;> simp
  | aarp off =>
    dsimp only [handleAarp]
    by_cases hsane : aarpInsane skb off <;> simp [hsane]
  | ddp off => simp [handleDdp]
  | pppoe =>
    dsimp only [handlePppoe]
    by_cases hsid : pppoeSid skb = [0, 0]
    · by_cases hpad : isPadiPadr skb
      · cases htag : s.ethBrExtInfo.addPPPoETag with
        | true => cases hadd : pl.addRelayTag skb <;> simp [hsid, hpad]
        | false =>
          simp only [hsid, hpad, Bool.false_eq_true, if_false, if_true]
          split_ifs <;> simp
      · simp [hsid, hpad]
    · simp only [hsid, if_false, decide_false, Bool.false_and]
      split_ifs <;> simp
  | passed => simp
  | ipv6 =>
    dsimp only [handleIpv6]
    by_cases hmal : ipv6Malformed skb
    · simp [hmal]
    · simp only [hmal, Bool.false_eq_true, if_false]
      split_ifs <;> simp
  | unknown => simp

/-- The part of the slow path about the shortcut, in terms of `needsNat25`. -/
theorem scdbUpdate_snd (j : BitVec w) : (scdbUpdate j skb s).2 = needsNat25 skb s := by
  unfold scdbUpdate needsNat25
  split
  · split
    · cases scdbFindEntry skb.sa (ipSaddr skb) s <;> rfl
    · cases s.scdbEntry <;> rfl
  · rfl

/-- The flags of the bridge extension do not change. -/
theorem scdbUpdate_ethBrExtInfo (j : BitVec w) :
    (scdbUpdate j skb s).1.ethBrExtInfo = s.ethBrExtInfo := by
  unfold scdbUpdate
  split
  · split
    · cases scdbFindEntry skb.sa (ipSaddr skb) s <;> rfl
    · cases s.scdbEntry <;> rfl
  · rfl

theorem learnBrIp_frame (skb : Skb) (s : Adapter w) :
    needsNat25 skb (learnBrIp skb s) = needsNat25 skb s ∧
      (learnBrIp skb s).ethBrExtInfo = s.ethBrExtInfo := by
  obtain ⟨ip, h⟩ := learnBrIp_eq skb s
  rw [h]
  exact ⟨rfl, rfl⟩

/-! ## Taking a tag out and putting it in -/

theorem protocol_vlanPush (f : Skb) (h₀ h₁ : Byte) :
    (f.vlanPush h₀ h₁).protocol = ethP8021q := rfl

/-- Taking out the tag that was put in. -/
theorem vlanPull_vlanPush (f : Skb) (h₀ h₁ : Byte) : (f.vlanPush h₀ h₁).vlanPull = f := by
  have hlen : 4 ≤ (f.vlanPush h₀ h₁).len := Nat.le_add_left 4 f.len
  unfold Skb.vlanPull
  dsimp only
  rw [if_pos hlen]
  have hdata : (fun i => if 4 ≤ i + 4 ∧ i + 4 < 16 then (f.vlanPush h₀ h₁).data (i + 4 - 4)
      else (f.vlanPush h₀ h₁).data (i + 4)) = f.data := by
    funext i
    by_cases hi : i < 12
    · rw [if_pos (by omega), Nat.add_sub_cancel]
      exact if_pos hi
    · rw [if_neg (by omega)]
      simp only [Skb.vlanPush]
      simp (disch := omega) only [if_neg, Nat.add_sub_cancel]
  rw [hdata]
  rfl

theorem untagged_vlanPush (f : Skb) (h₀ h₁ : Byte) : untagged (f.vlanPush h₀ h₁) = f := by
  rw [untagged, if_pos (protocol_vlanPush f h₀ h₁), vlanPull_vlanPush]

theorem retagged_vlanPush (f skb : Skb) (h₀ h₁ : Byte) :
    retagged (f.vlanPush h₀ h₁) skb = skb.vlanPush h₀ h₁ := by
  rw [retagged, if_pos (protocol_vlanPush f h₀ h₁)]
  rfl

theorem retagged_of_untagged (h : f.protocol ≠ ethP8021q) (skb : Skb) : retagged f skb = skb :=
  if_neg h

theorem sa_vlanPush (f : Skb) (h₀ h₁ : Byte) : (f.vlanPush h₀ h₁).sa = f.sa := by
  simp [Skb.sa, Skb.mac, Skb.vlanPush]

/-- A tag makes the frame longer. -/
theorem vlanPush_ne (f : Skb) (h₀ h₁ : Byte) : f.vlanPush h₀ h₁ ≠ f := by
  intro h
  have hlen := congrArg Skb.len h
  simp only [Skb.vlanPush] at hlen
  omega

theorem fastEntry_vlanPush (brPort : Bool) (f : Skb) (h₀ h₁ : Byte) (s : Adapter w) :
    fastEntry brPort (f.vlanPush h₀ h₁) s = none :=
  if_neg fun h => h.2.2.2.1 (protocol_vlanPush f h₀ h₁)

/-! ## Sending -/

/-- The insertion returns 0, -1 or -2. -/
theorem insert_ret_cases (env : Env w) :
    (nat25DbHandle clk pl .insert env skb s).ret = 0 ∨
      (nat25DbHandle clk pl .insert env skb s).ret = -1 ∨
      (nat25DbHandle clk pl .insert env skb s).ret = -2 := by
  unfold nat25DbHandle
  cases packet skb with
  | ip => dsimp only [handleIp]; split_ifs <;> simp
  | arp => dsimp only [handleArp]; split_ifs <;> simp
  | ipx off => dsimp only [handleIpx]; split_ifs <;> simp
  | aarp off => dsimp only [handleAarp]; split_ifs <;> simp
  | ddp off => simp [handleDdp]
  | pppoe =>
    dsimp only [handlePppoe]
    cases pl.addRelayTag skb <;> dsimp only <;> split_ifs <;> simp
  | passed => simp
  | ipv6 => dsimp only [handleIpv6]; split_ifs <;> simp
  | unknown => simp

/-- The end of `rtw_br_client_tx` puts the tag back. -/
theorem transformed_sameWithTag (h : f.protocol ≠ ethP8021q) (skb : Skb) (s : Adapter w)
    (h₀ h₁ : Byte) :
    SameWithTag h₀ h₁ (transformed dhcpFlagBcast f skb s)
      (transformed dhcpFlagBcast (f.vlanPush h₀ h₁) skb s) := by
  unfold transformed saChecked
  dsimp only
  rw [retagged_vlanPush, retagged_of_untagged h]
  exact ⟨by rw [sa_vlanPush], rfl, fun _ => rfl⟩

/-- `rtw_br_client_tx` past the shortcut. -/
theorem rtwBrClientTx_slow (h : fastEntry env.brPort f s = none) :
    rtwBrClientTx clk pl dhcpFlagBcast env f s =
      if needsNat25 (untagged f) s then
        if (nat25DbHandle clk pl .check env.toEnv (untagged f) (txUpdated env f s).1).ret = 0 ∧
            !env.copied then
          { ret := -1, skb := retagged f (untagged f), adapter := (txUpdated env f s).1 }
        else if !env.linear then
          { ret := -1, skb := untagged f, adapter := (txUpdated env f s).1 }
        else
          let res := nat25DbHandle clk pl .insert env.toEnv (untagged f) (txUpdated env f s).1
          if res.ret = -2 then { ret := -1, skb := res.skb, adapter := res.adapter }
          else if res.ret < 0 then { ret := 0, skb := res.skb, adapter := res.adapter }
          else transformed dhcpFlagBcast f res.skb res.adapter
      else transformed dhcpFlagBcast f (untagged f) (txUpdated env f s).1 := by
  have hneeds : needsNat25 (untagged f) s =
      (scdbUpdate env.jiffies (untagged f) (learnBrIp (untagged f) s)).2 := by
    rw [scdbUpdate_snd, (learnBrIp_frame (untagged f) s).1]
  rw [hneeds]
  unfold rtwBrClientTx txUpdated
  rw [h]

theorem txUpdated_vlanPush (h : f.protocol ≠ ethP8021q) (h₀ h₁ : Byte) :
    txUpdated env (f.vlanPush h₀ h₁) s = txUpdated env f s := by
  unfold txUpdated
  rw [untagged_vlanPush, untagged, if_neg h]

/-- The insertion in `rtw_br_client_tx` fails exactly if it rejects the frame. -/
theorem tx_insert_ret_iff (h : f.protocol ≠ ethP8021q) :
    (nat25DbHandle clk pl .insert env.toEnv f (txUpdated env f s).1).ret = -1 ↔
      insertRejects pl f s.ethBrExtInfo.addPPPoETag = true := by
  have hflags : (txUpdated env f s).1.ethBrExtInfo = s.ethBrExtInfo := by
    unfold txUpdated
    rw [scdbUpdate_ethBrExtInfo, untagged, if_neg h, (learnBrIp_frame f s).2]
  rw [insert_ret_iff, hflags]

/-- A frame whose insertion does not fail. -/
theorem txCommutes_of (h : f.protocol ≠ ethP8021q)
    (hins : ¬(needsNat25 f s ∧ insertRejects pl f s.ethBrExtInfo.addPPPoETag = true)) :
    TxCommutes clk pl dhcpFlagBcast f s := by
  intro env h₀ h₁ hfast
  have hf : untagged f = f := if_neg h
  rw [rtwBrClientTx_slow hfast, rtwBrClientTx_slow (fastEntry_vlanPush env.brPort f h₀ h₁ s),
    untagged_vlanPush, txUpdated_vlanPush h, hf]
  by_cases hneeds : needsNat25 f s
  · have hret : (nat25DbHandle clk pl .insert env.toEnv f (txUpdated env f s).1).ret ≠ -1 :=
      fun hr => hins ⟨hneeds, (tx_insert_ret_iff h).mp hr⟩
    rw [if_pos hneeds, if_pos hneeds]
    by_cases hcopy : (nat25DbHandle clk pl .check env.toEnv f (txUpdated env f s).1).ret = 0 ∧
        !env.copied
    · rw [if_pos hcopy, if_pos hcopy]
      exact ⟨rfl, rfl, nofun⟩
    rw [if_neg hcopy, if_neg hcopy]
    by_cases hlinear : (!env.linear) = true
    · rw [if_pos hlinear, if_pos hlinear]
      exact ⟨rfl, rfl, nofun⟩
    rw [if_neg hlinear, if_neg hlinear]
    dsimp only
    by_cases hdrop : (nat25DbHandle clk pl .insert env.toEnv f (txUpdated env f s).1).ret = -2
    · rw [if_pos hdrop, if_pos hdrop]
      exact ⟨rfl, rfl, nofun⟩
    rw [if_neg hdrop, if_neg hdrop]
    have hnonneg : ¬(nat25DbHandle clk pl .insert env.toEnv f (txUpdated env f s).1).ret < 0 := by
      rcases insert_ret_cases env.toEnv with hr | hr | hr
      · rw [hr]
        exact lt_irrefl 0
      · exact absurd hr hret
      · exact absurd hr hdrop
    rw [if_neg hnonneg, if_neg hnonneg]
    exact transformed_sameWithTag h _ _ h₀ h₁
  · rw [if_neg hneeds, if_neg hneeds]
    exact transformed_sameWithTag h _ _ h₀ h₁

/-- An environment in which nothing fails. -/
def quietEnv : TxEnv w := ⟨⟨⟨none, false, none⟩, 0⟩, true, true⟩

theorem quietEnv_fastEntry (f : Skb) (s : Adapter w) :
    fastEntry (quietEnv (w := w)).brPort f s = none :=
  if_neg fun h => absurd h.2.1 Bool.false_ne_true

/-- Where the insertion fails the frame `g` that is left of `f` goes on without its tag. -/
theorem tx_rejected {g : Skb} (hg : untagged f = g) (hneeds : needsNat25 g s)
    (hret : (nat25DbHandle clk pl .insert quietEnv.toEnv g (txUpdated quietEnv f s).1).ret = -1) :
    (rtwBrClientTx clk pl dhcpFlagBcast quietEnv f s).ret = 0 ∧
      (rtwBrClientTx clk pl dhcpFlagBcast quietEnv f s).skb =
        (nat25DbHandle clk pl .insert quietEnv.toEnv g (txUpdated quietEnv f s).1).skb := by
  subst hg
  have hcopy : ¬((nat25DbHandle clk pl .check quietEnv.toEnv (untagged f)
      (txUpdated quietEnv f s).1).ret = 0 ∧ !(quietEnv (w := w)).copied) := fun h =>
    absurd h.2 Bool.false_ne_true
  have hlinear : ¬(!(quietEnv (w := w)).linear) = true := Bool.false_ne_true
  rw [rtwBrClientTx_slow (quietEnv_fastEntry f s), if_pos hneeds, if_neg hcopy, if_neg hlinear]
  dsimp only
  rw [hret, if_neg (by decide), if_pos (by decide)]
  exact ⟨rfl, rfl⟩

/-- The tag of a frame that is rejected is lost. -/
theorem not_txCommutes_of_rejects (h : f.protocol ≠ ethP8021q) (hneeds : needsNat25 f s)
    (hrej : insertRejects pl f s.ethBrExtInfo.addPPPoETag = true) :
    ¬TxCommutes clk pl dhcpFlagBcast f s := by
  intro hcomm
  have hret : (nat25DbHandle clk pl .insert quietEnv.toEnv f (txUpdated quietEnv f s).1).ret = -1 :=
    (tx_insert_ret_iff h).mpr hrej
  have hret' : (nat25DbHandle clk pl .insert quietEnv.toEnv f
      (txUpdated quietEnv (f.vlanPush 0 0) s).1).ret = -1 := by
    rwa [txUpdated_vlanPush h]
  obtain ⟨hzero, hskb⟩ : _ ∧ (rtwBrClientTx clk pl dhcpFlagBcast quietEnv f s).skb = _ :=
    tx_rejected (if_neg h) hneeds hret
  obtain ⟨-, htag⟩ : _ ∧
      (rtwBrClientTx clk pl dhcpFlagBcast quietEnv (f.vlanPush 0 0) s).skb = _ :=
    tx_rejected (untagged_vlanPush f 0 0) hneeds hret'
  have hcomm := (hcomm quietEnv 0 0 (quietEnv_fastEntry f s)).skb hzero
  rw [hskb, htag, txUpdated_vlanPush h] at hcomm
  exact vlanPush_ne _ _ _ hcomm.symm

/-- A second tag is lost, whatever it is. -/
theorem not_txCommutes_of_tagged (h : f.protocol = ethP8021q) :
    ¬TxCommutes clk pl dhcpFlagBcast f s := by
  intro hcomm
  have hneeds : needsNat25 f s := by
    rw [needsNat25, if_neg (by rw [h]; decide)]
  have hpacket : packet f = .unknown := by
    simp [packet, h, ethP8021q, ethPIp, ethPArp, ethPIpx, ethPAtalk, ethPAarp, ethPPppDisc,
      ethPPppSes, ethPIpv6]
  have hins (t : Adapter w) : nat25DbHandle clk pl .insert quietEnv.toEnv f t =
      { ret := -1, skb := f, adapter := t } := by
    rw [nat25DbHandle, hpacket]
  -- for each tag the frame goes on with the tag that it had
  have htag (h₁ : Byte) : f.data 15 = h₁ := by
    obtain ⟨hzero, hskb⟩ :
        (rtwBrClientTx clk pl dhcpFlagBcast quietEnv (f.vlanPush 0 h₁) s).ret = 0 ∧ _ = _ :=
      tx_rejected (untagged_vlanPush f 0 h₁) hneeds (by rw [hins])
    have hsame := hcomm quietEnv 0 h₁ (quietEnv_fastEntry f s)
    have hskb' := hsame.skb (hsame.ret.symm.trans hzero)
    rw [hskb, hins] at hskb'
    exact congrArg (fun skb => skb.data 15) hskb'
  exact absurd ((htag 0).symm.trans (htag 1)) (by decide)

/-! ## Receiving -/

/-- On receiving a frame that was not tagged the tag is always put back. -/
theorem rxCommutes_of (h : f.protocol ≠ ethP8021q) : RxCommutes clk pl f s := by
  intro env h₀ h₁ _
  have hf : untagged f = f := if_neg h
  unfold nat25HandleFrame
  rw [Skb.da_vlanPush, untagged_vlanPush, hf]
  dsimp only
  rw [retagged_vlanPush, retagged_of_untagged h]
  split_ifs
  all_goals exact ⟨rfl, rfl, fun _ => rfl⟩

/-! ## The two together -/

/-- Handling commutes with tagging exactly for the frames that have no tag yet and that, if they are
to be inserted into the database, the insertion does not reject. -/
theorem vlan_commutes_iff (clk : Clock w) (pl : Payload) (dhcpFlagBcast : Skb → Skb) (f : Skb)
    (s : Adapter w) :
    (TxCommutes clk pl dhcpFlagBcast f s ∧ RxCommutes clk pl f s) ↔
      f.protocol ≠ ethP8021q ∧
        ¬(needsNat25 f s ∧ insertRejects pl f s.ethBrExtInfo.addPPPoETag = true) := by
  constructor
  · rintro ⟨htx, -⟩
    have h : f.protocol ≠ ethP8021q := fun h => not_txCommutes_of_tagged h htx
    exact ⟨h, fun hrej => not_txCommutes_of_rejects h hrej.1 hrej.2 htx⟩
  · rintro ⟨h, hins⟩
    exact ⟨txCommutes_of h hins, rxCommutes_of h⟩

/-- An LLDP frame. -/
def lldpFrame : Skb :=
  { data := fun i => if i = 12 then 0x88 else if i = 13 then 0xcc else 0, len := 60 }

/-- A tagged LLDP frame is sent without its tag. -/
theorem lldpFrame_not_commutes :
    ¬(TxCommutes clock100 samePayload id lldpFrame (emptied bridgedAdapter) ∧
      RxCommutes clock100 samePayload lldpFrame (emptied bridgedAdapter)) := by
  rw [vlan_commutes_iff]
  exact fun h => h.2 ⟨by decide, by decide⟩

end Rtl88x2cu.Nat25
