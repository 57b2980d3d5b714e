import Rtl88x2cu.Nat25.AccessIff

/-!
# The handler of frames reads what it accesses

What the handler returns for a frame depends on no byte behind the frame, and no byte behind it is
written, if the accesses to the frame are inside (`dbAccess_inside`). This is what makes `dbAccess`
say something about the handler.
-/

namespace Rtl88x2cu.Nat25

open Bytes (Byte)
open OnesComplement Walker

/-! ## Frames that agree -/

/-- Two frames of the same length with the same bytes up to `N`. -/
structure Same (N : ℕ) (f g : Skb) : Prop where
  len : g.len = f.len
  data : ∀ i < N, g.data i = f.data i

namespace Same

variable {N : ℕ} {f g : Skb} (h : Same N f g)
include h

theorem bytes (off n : ℕ) (hle : off + n ≤ N) : g.bytes off n = f.bytes off n :=
  Skb.bytes_congr fun i _ hi => h.data i (by omega)

theorem be16 (off : ℕ) (hle : off + 2 ≤ N) : g.be16 off = f.be16 off := by
  rw [Skb.be16, Skb.be16, h.data _ (by omega), h.data _ (by omega)]

theorem load (e : Endian) (off : ℕ) (hle : off + 2 ≤ N) : g.load e off = f.load e off := by
  rw [Skb.load, Skb.load, h.data _ (by omega), h.data _ (by omega)]

theorem mac (off : ℕ) (hle : off + 6 ≤ N) : g.mac off = f.mac off := by
  rw [Skb.mac, Skb.mac, h.data _ (by omega), h.data _ (by omega), h.data _ (by omega),
    h.data _ (by omega), h.data _ (by omega), h.data _ (by omega)]

theorem ip {off : ℕ} (hle : off + 4 ≤ N) : g.ip off = f.ip off := by
  funext i
  exact h.data _ (by omega)

theorem setMac (off : ℕ) (a : EthAddr) : Same N (f.setMac off a) (g.setMac off a) := by
  refine ⟨h.len, fun i hi => ?_⟩
  simp only [Skb.setMac, h.data i hi]

theorem store (e : Endian) (off : ℕ) (v : BitVec 16) :
    Same N (f.store e off v) (g.store e off v) := by
  refine ⟨h.len, fun i hi => ?_⟩
  simp only [Skb.store, h.data i hi]

end Same

/-- The bytes behind the frame `f`, and behind what it becomes, are left alone. -/
def Within (f f' : Skb) : Prop := ∀ i, f.len ≤ i → f'.len ≤ i → f'.data i = f.data i

theorem Within.refl (f : Skb) : Within f f := fun _ _ _ => rfl

theorem Within.setMac {f f' : Skb} (h : Within f f') {off : ℕ} (a : EthAddr)
    (hle : off + 6 ≤ f.len) :
    Within f (f'.setMac off a) := fun i hi hi' =>
  (f'.data_setMac_of_le a (by omega)).trans (h i hi hi')

/-- The frames `f` and `g` are handled alike, up to `N`, and no byte behind `f` is written. -/
structure Inside {w : ℕ} (N : ℕ) (f : Skb) (r r' : Res w) : Prop where
  ret : r'.ret = r.ret
  adapter : r'.adapter = r.adapter
  same : Same N r.skb r'.skb
  within : Within f r.skb

section Handlers

variable {w : ℕ} {clk : Clock w} {method : Method} {env : Env w} {s : Adapter w} {f g : Skb}
  {N : ℕ} {log : Bool}

theorem lookupAndReplace_inside (clk : Clock w) (env : Env w) (s : Adapter w) (h : Same N f g)
    (hlen : ethHlen ≤ f.len) (k : NetworkAddr) :
    (lookupAndReplace clk env g s k).1 = (lookupAndReplace clk env f s k).1 ∧
      (lookupAndReplace clk env g s k).2.2 = (lookupAndReplace clk env f s k).2.2 ∧
      Same N (lookupAndReplace clk env f s k).2.1 (lookupAndReplace clk env g s k).2.1 ∧
      Within f (lookupAndReplace clk env f s k).2.1 := by
  have hle : 0 + 6 ≤ f.len := Nat.le_trans (by decide) hlen
  unfold lookupAndReplace Db.lookupAndReplace
  cases hfind : s.db.find k with
  | none => exact ⟨rfl, rfl, h, Within.refl f⟩
  | some a =>
    dsimp only
    by_cases hexp : hasExpired clk env.jiffies (s.db.entry a) = true
    · simp only [hexp]
      exact ⟨rfl, rfl, h, Within.refl f⟩
    · simp only [eq_false_of_ne_true hexp]
      exact ⟨rfl, rfl, h.setMac 0 _, (Within.refl f).setMac _ hle⟩

/-- A frame that is left alone. -/
theorem Inside.refl (h : Same N f g) (ret : ℤ) (s : Adapter w) :
    Inside N f { ret := ret, skb := f, adapter := s } { ret := ret, skb := g, adapter := s } :=
  ⟨rfl, rfl, h, Within.refl f⟩

theorem handleIp_inside (h : Same N f g) (hN : f.len ≤ N) (hok : IpOk log method f) :
    Inside N f (handleIp clk method env f s) (handleIp clk method env g s) := by
  obtain ⟨hihl, hok⟩ := hok
  have hhdr : ipHdrLen g = ipHdrLen f := by rw [ipHdrLen, ipHdrLen, h.data _ (by omega)]
  have hsa : g.sa = f.sa := h.mac _ (by simp only [ethHlen] at hihl; omega)
  unfold handleIp
  rw [hhdr, h.len]
  by_cases hlen : f.len ≤ ipHdrLen f
  · rw [if_pos hlen, if_pos hlen]
    exact Inside.refl h _ _
  · rw [if_neg hlen, if_neg hlen]
    replace hok := hok (Nat.not_le.mp hlen)
    cases method with
    | check => exact Inside.refl h _ _
    | insert =>
      have hsaddr : ipSaddr g = ipSaddr f := h.ip (by omega)
      dsimp only
      rw [hsaddr]
      by_cases hzero : ipSaddr f = zeroIp
      · rw [if_pos hzero, if_pos hzero]
        exact Inside.refl h _ _
      · rw [if_neg hzero, if_neg hzero, networkInsert, networkInsert, hsa]
        exact Inside.refl h _ _
    | lookup =>
      have hdaddr : ipDaddr g = ipDaddr f := h.ip (by omega)
      dsimp only at hok ⊢
      rw [hdaddr]
      obtain ⟨hfound, hs, hskb, hwithin⟩ := lookupAndReplace_inside clk env s h (by omega)
        (ipv4NetworkAddr (ipDaddr f))
      rw [hfound, hs]
      by_cases hf : (lookupAndReplace clk env f s (ipv4NetworkAddr (ipDaddr f))).1 = true
      · rw [hf]
        exact ⟨rfl, rfl, hskb, hwithin⟩
      · rw [eq_false_of_ne_true hf]
        have hle : 0 + 6 ≤ f.len := by simp only [ethHlen] at hihl; omega
        simp only [Bool.not_false, if_true, ipUnknown]
        by_cases hbcast : ipDaddr f 3 = 0xff
        · rw [if_pos hbcast, if_pos hbcast]
          exact ⟨rfl, rfl, hskb.setMac 0 _, hwithin.setMac _ hle⟩
        · rw [if_neg hbcast, if_neg hbcast]
          exact ⟨rfl, rfl, hskb.setMac 0 _, hwithin.setMac _ hle⟩

theorem handleArp_inside (h : Same N f g) (hN : f.len ≤ N) (hok : ArpOk method f) :
    Inside N f (handleArp clk method env f s) (handleArp clk method env g s) := by
  obtain ⟨hpro, hok⟩ := hok
  have hsa : g.sa = f.sa := h.mac _ (by simp only [ethHlen] at hpro; omega)
  unfold handleArp
  rw [h.be16 (ethHlen + 2) (by omega)]
  by_cases hip : f.be16 (ethHlen + 2) = ethPIp
  · rw [if_neg (not_not.mpr hip), if_neg (not_not.mpr hip)]
    replace hok := hok hip
    cases method with
    | check => exact Inside.refl h _ _
    | insert =>
      obtain ⟨hmac, hsender⟩ := hok
      have hptr : arpPtr = ethHlen + 8 := rfl
      have hhln : arHln g = arHln f := by rw [arHln, arHln, h.data _ (by omega)]
      have hs : arpSender g s = arpSender f s := by
        rw [arpSender, arpSender, hhln]
        exact (h.setMac arpPtr s.macAddr).ip (by omega)
      dsimp only
      rw [networkInsert, networkInsert, hsa, hs]
      exact ⟨rfl, rfl, h.setMac _ _, (Within.refl f).setMac _ hmac⟩
    | lookup =>
      obtain ⟨hhdr, htarget, hmac⟩ := hok
      have hhln : arHln g = arHln f := by rw [arHln, arHln, h.data _ (by omega)]
      have hpln : arPln g = arPln f := by rw [arPln, arPln, h.data _ (by omega)]
      have ht : arpTarget g = arpTarget f := by
        rw [arpTarget, arpTarget, hhln, hpln]
        exact h.ip (by omega)
      dsimp only
      rw [ht, hhln, hpln]
      obtain ⟨-, hs, hskb, hwithin⟩ := lookupAndReplace_inside clk env s h (by omega)
        (ipv4NetworkAddr (arpTarget f))
      have hda := hskb.mac 0 (by simp only [ethHlen] at hpro; omega)
      rw [hs, Skb.da, Skb.da, hda]
      exact ⟨rfl, rfl, hskb.setMac _ _, hwithin.setMac _ hmac⟩
  · rw [if_pos hip, if_pos hip]
    exact Inside.refl h _ _

theorem handleIpx_inside (h : Same N f g) (hN : f.len ≤ N) (hskb : ethHlen ≤ f.len) {off : ℕ}
    (hok : IpxOk log method s f off) :
    Inside N f (handleIpx clk method env f s off) (handleIpx clk method env g s off) := by
  have hethLen : ethHlen = 14 := rfl
  have hsa : g.sa = f.sa := h.mac _ (by omega)
  unfold handleIpx
  cases method with
  | check =>
    have hle : off + 28 ≤ f.len := hok
    dsimp only
    rw [hsa, h.mac (off + 22) (by omega)]
    split_ifs <;> exact Inside.refl h _ _
  | insert =>
    obtain ⟨hle, hsock⟩ := hok
    dsimp only
    rw [hsa, h.mac (off + 22) (by omega)]
    by_cases hnode : f.sa = f.mac (off + 22)
    · replace hsock := hsock (Or.inr hnode)
      rw [if_pos hnode, if_pos hnode, h.bytes (off + 18) 4 (by omega),
        h.bytes (off + 28) 2 (by omega), networkInsert, networkInsert, hsa]
      exact ⟨rfl, rfl, h.setMac _ _, (Within.refl f).setMac _ hle⟩
    · rw [if_neg hnode, if_neg hnode, h.bytes (off + 18) 4 (by omega),
        h.bytes (off + 22) 6 (by omega), networkInsert, networkInsert, hsa]
      exact Inside.refl h _ _
  | lookup =>
    obtain ⟨hle, hsock⟩ := hok
    dsimp only
    rw [h.mac (off + 10) (by omega)]
    by_cases hnode : s.macAddr = f.mac (off + 10)
    · replace hsock := hsock hnode
      rw [if_pos hnode, if_pos hnode, h.bytes (off + 6) 4 (by omega),
        h.bytes (off + 16) 2 (by omega)]
      obtain ⟨-, hs, hskb', hwithin⟩ := lookupAndReplace_inside clk env s h hskb
        (ipxNetworkAddrWithSocket (f.bytes (off + 6) 4) (f.bytes (off + 16) 2))
      have hda := hskb'.mac 0 (by omega)
      rw [hs, Skb.da, Skb.da, hda]
      exact ⟨rfl, rfl, hskb'.setMac _ _, hwithin.setMac _ hle⟩
    · rw [if_neg hnode, if_neg hnode, h.bytes (off + 6) 4 (by omega),
        h.bytes (off + 10) 6 (by omega)]
      obtain ⟨-, hs, hskb', hwithin⟩ := lookupAndReplace_inside clk env s h hskb
        (ipxNetworkAddrWithNode (f.bytes (off + 6) 4) (f.bytes (off + 10) 6))
      exact ⟨rfl, hs, hskb', hwithin⟩

theorem handleAarp_inside (h : Same N f g) (hN : f.len ≤ N) (hskb : ethHlen ≤ f.len) {ea : ℕ}
    (hok : AarpOk log method f ea) :
    Inside N f (handleAarp clk method env f s ea) (handleAarp clk method env g s ea) := by
  have hethLen : ethHlen = 14 := rfl
  have hsa : g.sa = f.sa := h.mac _ (by omega)
  obtain ⟨hhw, hok⟩ := hok
  have hinsane : aarpInsane g ea = aarpInsane f ea := by
    rw [aarpInsane, aarpInsane, h.data (ea + 4) (by omega)]
    by_cases h6 : f.data (ea + 4) = 6
    · rw [h.data (ea + 5) (by have := (hok h6).1; omega)]
    · have hne : decide (f.data (ea + 4) ≠ 6) = true := decide_eq_true h6
      rw [hne, Bool.true_or, Bool.true_or]
  unfold handleAarp
  rw [hinsane]
  by_cases hbad : aarpInsane f ea = true
  · rw [if_pos hbad, if_pos hbad]
    exact Inside.refl h _ _
  · rw [if_neg hbad, if_neg hbad]
    have hsane : f.data (ea + 4) = 6 ∧ f.data (ea + 5) = 4 := by
      simpa [aarpInsane] using hbad
    obtain ⟨-, hok⟩ := hok hsane.1
    replace hok := hok hsane.2
    cases method with
    | check => exact Inside.refl h _ _
    | insert =>
      obtain ⟨hle, -⟩ := hok
      dsimp only
      rw [h.bytes (ea + 15) 2 (by omega), h.bytes (ea + 17) 1 (by omega),
        networkInsert, networkInsert, hsa]
      exact ⟨rfl, rfl, h.setMac _ _, (Within.refl f).setMac _ (by omega)⟩
    | lookup =>
      have hle : ea + 28 ≤ f.len := hok
      dsimp only
      rw [h.bytes (ea + 25) 2 (by omega), h.bytes (ea + 27) 1 (by omega)]
      obtain ⟨-, hs, hskb', hwithin⟩ := lookupAndReplace_inside clk env s h hskb
        (appleNetworkAddr (f.bytes (ea + 25) 2) (f.bytes (ea + 27) 1))
      have hda := hskb'.mac 0 (by omega)
      rw [hs, Skb.da, Skb.da, hda]
      exact ⟨rfl, rfl, hskb'.setMac _ _, hwithin.setMac _ (by omega)⟩

theorem handleDdp_inside (h : Same N f g) (hN : f.len ≤ N) (hskb : ethHlen ≤ f.len) {ddp : ℕ}
    (hok : DdpOk log method f ddp) :
    Inside N f (handleDdp clk method env f s ddp) (handleDdp clk method env g s ddp) := by
  have hethLen : ethHlen = 14 := rfl
  have hsa : g.sa = f.sa := h.mac _ (by omega)
  unfold handleDdp
  cases method with
  | check => exact Inside.refl h _ _
  | insert =>
    have hle : ddp + 10 ≤ f.len := hok
    dsimp only
    rw [h.bytes (ddp + 6) 2 (by omega), h.bytes (ddp + 9) 1 (by omega),
      networkInsert, networkInsert, hsa]
    exact Inside.refl h _ _
  | lookup =>
    obtain ⟨hle, -⟩ := hok
    dsimp only
    rw [h.bytes (ddp + 4) 2 (by omega), h.bytes (ddp + 8) 1 (by omega)]
    obtain ⟨-, hs, hskb', hwithin⟩ := lookupAndReplace_inside clk env s h hskb
      (appleNetworkAddr (f.bytes (ddp + 4) 2) (f.bytes (ddp + 8) 1))
    exact ⟨rfl, hs, hskb', hwithin⟩

/-- The header in front of IPX and AppleTalk is read alike. -/
theorem applePacket_same (h : Same N f g) (hN : f.len ≤ N) (hskb : ethHlen ≤ f.len)
    (hok : AppleHeadOk f) : applePacket g = applePacket f := by
  have hethLen : ethHlen = 14 := rfl
  have hproto : g.protocol = f.protocol := h.be16 _ (by omega)
  unfold applePacket
  rw [hproto]
  by_cases hipx : f.protocol = ethPIpx
  · rw [if_pos hipx, if_pos hipx]
  · rw [if_neg hipx, if_neg hipx]
    obtain ⟨hle, hok⟩ := hok hipx
    rw [h.bytes ethHlen 2 (by omega)]
    by_cases hff : f.bytes ethHlen 2 = [0xFF, 0xFF]
    · rw [if_pos hff, if_pos hff]
    · rw [if_neg hff, if_neg hff, h.data ethHlen (by omega)]
      obtain ⟨hsnap, h8022⟩ := hok hff
      by_cases haa : f.data ethHlen = 0xAA
      · have := hsnap haa
        rw [if_pos haa, if_pos haa, h.bytes (ethHlen + 3) 5 (by omega)]
      · rw [if_neg haa, if_neg haa]
        by_cases he0 : f.data ethHlen = 0xE0
        · have := h8022 he0
          rw [if_pos he0, if_pos he0, h.bytes (ethHlen + 3) 2 (by omega)]
        · rw [if_neg he0, if_neg he0]

theorem applePacket_cases (f : Skb) : (∃ off, applePacket f = .ipx off) ∨
    (∃ off, applePacket f = .aarp off) ∨ (∃ off, applePacket f = .ddp off) ∨
      applePacket f = .unknown := by
  generalize hp : applePacket f = p
  unfold applePacket at hp
  dsimp only at hp
  split at hp
  · exact .inl ⟨_, hp.symm⟩
  split at hp
  · exact .inl ⟨_, hp.symm⟩
  split at hp
  · -- the SNAP header decides
    split at hp
    · exact .inl ⟨_, hp.symm⟩
    split at hp
    · exact .inr (.inl ⟨_, hp.symm⟩)
    split at hp
    · exact .inr (.inr (.inl ⟨_, hp.symm⟩))
    · exact .inr (.inr (.inr hp.symm))
  split at hp
  · split at hp
    · exact .inl ⟨_, hp.symm⟩
    · exact .inr (.inr (.inr hp.symm))
  · exact .inr (.inr (.inr hp.symm))

theorem packet_same (h : Same N f g) (hN : f.len ≤ N) (hskb : ethHlen ≤ f.len)
    (happle : f.protocol = ethPIpx ∨ f.protocol = ethPAtalk ∨ f.protocol = ethPAarp →
      AppleHeadOk f) :
    packet g = packet f := by
  have hethLen : ethHlen = 14 := rfl
  have hproto : g.protocol = f.protocol := h.be16 _ (by omega)
  unfold packet
  rw [hproto]
  by_cases ha : f.protocol = ethPIpx ∨ f.protocol = ethPAtalk ∨ f.protocol = ethPAarp
  · rw [applePacket_same h hN hskb (happle ha)]
  · rw [if_neg ha, if_neg ha]

end Handlers

/-! ## Tags -/

section Tags

variable {f g : Skb} {N : ℕ} {e : Endian} {room tailroom : ℕ}

theorem Same.reads (h : Same N f g) (hN : f.len ≤ N) (i : ℕ) (b : Byte) (hi : f.inside i = some b) :
    g.anywhere i = some b := by
  unfold Skb.inside at hi
  split_ifs at hi with hlt
  rw [Skb.anywhere, h.data i (by omega)]
  exact hi

/-- The relay tag is found at the same place. -/
theorem find_same (h : Same N f g) (hN : f.len ≤ N) (htags : TagsInside f) :
    nat25FindPppoeTag g.anywhere (g.be16 pppoeLength) pttRelaySid =
      nat25FindPppoeTag f.anywhere (f.be16 pppoeLength) pttRelaySid := by
  obtain ⟨hlen, hall⟩ := htags
  obtain ⟨r, hr⟩ := nat25FindPppoeTag_anywhere f (f.be16 pppoeLength) pttRelaySid
  have hinside : nat25FindPppoeTag f.inside (f.be16 pppoeLength) pttRelaySid = some r :=
    (walk_restrict_iff fun q nx => findTagStep_mono (inside_le_anywhere f)).mpr
      ⟨hr, fun q hq => isSome_findTagStep.mpr fun hlt => hall q hq hlt⟩
  rw [h.be16 pppoeLength (by omega), hr]
  exact ((walk_restrict_iff fun q nx => findTagStep_mono (h.reads hN)).mp hinside).1

/-- The two results of a step on the frames `f` and `g`. -/
def InsideOpt (N : ℕ) (f : Skb) : Option Skb → Option Skb → Prop
  | none, none => True
  | some a, some b => Same N a b ∧ Within f a
  | _, _ => False

theorem InsideOpt.map {a b : Option Skb} {k : Skb → Skb} (h : InsideOpt N f a b)
    (hk : ∀ a b, Same N a b → Within f a → Same N (k a) (k b) ∧ Within f (k a)) :
    InsideOpt N f (a.map k) (b.map k) := by
  cases a with
  | none =>
    cases b with
    | none => trivial
    | some b => exact h.elim
  | some a =>
    cases b with
    | none => exact h.elim
    | some b => exact hk a b h.1 h.2

theorem InsideOpt.trans {f₀ : Skb} {a b : Option Skb} (h : InsideOpt N f a b) (hf : Within f₀ f)
    (hlen : f.len = f₀.len) : InsideOpt N f₀ a b := by
  cases a with
  | none =>
    cases b with
    | none => trivial
    | some b => exact h.elim
  | some a =>
    cases b with
    | none => exact h.elim
    | some b =>
      refine ⟨h.1, fun i hi hi' => ?_⟩
      exact (h.2 i (by omega) hi').trans (hf i hi (by omega))

theorem Within.store {f' : Skb} (h : Within f f') (e : Endian) {off : ℕ} (v : BitVec 16)
    (hle : off + 2 ≤ f.len) : Within f (f'.store e off v) := fun i hi hi' =>
  (Skb.data_store_of_ne _ _ _ (by omega) (by omega)).trans (h i hi hi')

/-- What is cut out of the frames. -/
theorem pullAndMerge_inside (h : Same N f g) (hN : f.len ≤ N) (src len : ℕ) :
    InsideOpt N f (f.pullAndMerge src len) (g.pullAndMerge src len) := by
  unfold Skb.pullAndMerge
  rw [h.len]
  by_cases hout : f.len < src + len ∨ f.len < len
  · rw [if_pos hout, if_pos hout]
    trivial
  · rw [if_neg hout, if_neg hout]
    refine ⟨⟨rfl, fun i hi => ?_⟩, fun i hi _ => ?_⟩
    · simp only [Skb.memmove]
      by_cases hmove : src ≤ i ∧ i < src + (f.len - (src + len))
      · rw [if_pos hmove, if_pos hmove, h.data _ (by omega)]
      · rw [if_neg hmove, if_neg hmove, h.data _ hi]
    · simp only [Skb.memmove]
      rw [if_neg (by omega)]

/-- A tag is put in front of tags that are inside. -/
theorem nat25AddPppoeTag_inside {f₀ : Skb} (h : Same N f g) (hN : f.len ≤ N) {tag : ℕ → Byte}
    (hwithin : ∀ i, f₀.len ≤ i → f.len ≤ i → f.data i = f₀.data i)
    (hok : room < addedLen e tag ∨ pppoeTags + f.be16 pppoeLength ≤ f.len)
    (hlen : pppoeTags ≤ f.len) :
    InsideOpt N f₀ (nat25AddPppoeTag e room tag f) (nat25AddPppoeTag e room tag g) := by
  have hptr : pppoeTags = pppoeLength + 2 := rfl
  unfold nat25AddPppoeTag
  by_cases hroom : room < addedLen e tag
  · rw [if_pos hroom, if_pos hroom]
    trivial
  · rw [if_neg hroom, if_neg hroom, h.be16 pppoeLength (by omega)]
    replace hok := hok.resolve_left hroom
    refine ⟨⟨congrArg (· + addedLen e tag) h.len, fun i hi => ?_⟩, fun i hi hi' => ?_⟩
    · simp only [Skb.memcpy, Skb.store, Skb.memmove]
      by_cases hmove : pppoeTags + addedLen e tag ≤ i ∧
          i < pppoeTags + addedLen e tag + f.be16 pppoeLength
      · rw [if_pos hmove, if_pos hmove, h.data _ (by omega)]
      · rw [if_neg hmove, if_neg hmove, h.data _ hi]
    · have hafter : f.len + addedLen e tag ≤ i := hi'
      rw [Skb.data_memcpy_of_out _ (Or.inr (by omega)),
        Skb.data_store_of_ne _ _ _ (by omega) (by omega),
        Skb.data_memmove_of_out _ (Or.inr (by omega))]
      exact hwithin i hi (by omega)

/-- The header of the tag that is found is inside: the walk has read it. -/
theorem TagsInside.found (h : TagsInside f) {p : ℕ}
    (hr : nat25FindPppoeTag f.anywhere (f.be16 pppoeLength) pttRelaySid = some (some p)) :
    pppoeTags ≤ p ∧ p + tagHdrLen ≤ f.len := by
  obtain ⟨q, hq, hdone⟩ := walk_reaches hr
  have hqp : q = p ∧ q < pppoeTags + f.be16 pppoeLength := by
    unfold findTagStep at hdone
    split_ifs at hdone with hlt
    · simp only [Skb.anywhere, Option.bind_eq_bind, Option.bind_some] at hdone
      split_ifs at hdone
      · cases hdone
        exact ⟨rfl, hlt⟩
      · cases hdone
    · cases hdone
  obtain ⟨rfl, hlt⟩ := hqp
  have hge := hq.le fun q q' hs => Nat.le_trans (Nat.le_add_right q 4) (findTagStep_goto hs).1
  exact ⟨hge, h.2 q hq hlt⟩

theorem AddOk.room_or {length len : ℕ} (stack : ℕ → Byte) (mac : EthAddr) (old : List Byte)
    (hold : old.length ≤ 28) (h : AddOk e room old.length length len) :
    room < addedLen e (relayTag stack old mac) ∨ pppoeTags + length ≤ len := by
  rw [relayTag_len mac old e stack hold]
  cases e with
  | big => exact h
  | little => exact Or.inl h

theorem addRelayTag_inside (stack : ℕ → Byte) (h : Same N f g) (hN : f.len ≤ N)
    (hok : RequestOk e tailroom f) :
    InsideOpt N f (addRelayTag e tailroom stack f) (addRelayTag e tailroom stack g) := by
  obtain ⟨htags, hok⟩ := hok
  have hptr : pppoeTags = pppoeLength + 2 := rfl
  have hlen : pppoeTags ≤ f.len := htags.1
  have hsa : g.sa = f.sa := h.mac _ (by rw [hptr, pppoeLength, ethHlen] at hlen; omega)
  obtain ⟨r, hr⟩ := nat25FindPppoeTag_anywhere f (f.be16 pppoeLength) pttRelaySid
  unfold addRelayTag
  rw [find_same h hN htags, hr, hsa]
  rw [hr] at hok
  cases r with
  | none =>
    exact nat25AddPppoeTag_inside h hN (Within.refl f)
      (AddOk.room_or stack f.sa [] (by decide) hok) hlen
  | some p =>
    obtain ⟨hpge, hp⟩ := htags.found hr
    replace hp : p + 4 ≤ f.len := hp
    dsimp only at hok ⊢
    rw [h.be16 (p + 2) (by omega)]
    by_cases hlong : sizeofTagBuf < f.be16 (p + 2) + tagHdrLen + relayLen
    · rw [if_pos hlong, if_pos hlong]
      trivial
    · rw [if_neg hlong, if_neg hlong]
      have hle : f.be16 (p + 2) ≤ 28 := by
        simp only [sizeofTagBuf, tagHdrLen, relayLen] at hlong
        omega
      obtain ⟨hin, hadd⟩ := hok hle
      rw [h.bytes (p + tagHdrLen) (f.be16 (p + 2)) (by omega),
        h.be16 pppoeLength (by omega)]
      have hpull := pullAndMerge_inside h hN p (tagHdrLen + f.be16 (p + 2))
      revert hpull
      cases hf' : f.pullAndMerge p (tagHdrLen + f.be16 (p + 2)) with
      | none =>
        cases g.pullAndMerge p (tagHdrLen + f.be16 (p + 2)) with
        | none => exact fun _ => trivial
        | some g' => exact fun hpull => hpull.elim
      | some f' =>
        cases g.pullAndMerge p (tagHdrLen + f.be16 (p + 2)) with
        | none => exact fun hpull => hpull.elim
        | some g' =>
          rintro ⟨hsame, hwithin⟩
          have hlen' : f'.len = f.len - (tagHdrLen + f.be16 (p + 2)) := by
            rw [Skb.pullAndMerge, if_neg (by omega)] at hf'
            rw [← Option.some.inj hf']
          have hold : (f.bytes (p + tagHdrLen) (f.be16 (p + 2))).length = f.be16 (p + 2) :=
            Skb.length_bytes _ _ _
          have hfield : (BitVec.ofNat 16 (f.be16 pppoeLength) -
              BitVec.ofNat 16 (tagHdrLen + f.be16 (p + 2))).toNat =
                (f.be16 pppoeLength + (65536 - (tagHdrLen + f.be16 (p + 2)))) % 65536 :=
            toNat_cut_length (by rw [tagHdrLen]; omega)
          refine nat25AddPppoeTag_inside (hsame.store _ _ _) (by rw [Skb.len_store]; omega) ?_ ?_
            (by rw [Skb.len_store]; omega)
          · intro i hi hi'
            have hne : pppoeLength + 1 < f.len := by omega
            rw [Skb.data_store_of_ne _ _ _ (by omega) (by omega)]
            exact hwithin i hi hi'
          · rw [Skb.be16_eq_load _ pppoeLength, Skb.load_store, hfield, Skb.len_store, hlen']
            refine AddOk.room_or stack f.sa _ (by rw [hold]; exact hle) ?_
            rw [hold]
            exact hadd

theorem takeRelayTag_inside (h : Same N f g) (hN : f.len ≤ N) (hok : AnswerOk f) :
    InsideOpt N f (takeRelayTag f) (takeRelayTag g) := by
  obtain ⟨htags, hok⟩ := hok
  have hptr : pppoeTags = 20 := rfl
  have hfield : pppoeLength = 18 := rfl
  have hlen : pppoeTags ≤ f.len := htags.1
  obtain ⟨r, hr⟩ := nat25FindPppoeTag_anywhere f (f.be16 pppoeLength) pttRelaySid
  unfold takeRelayTag
  rw [find_same h hN htags, hr]
  rw [hr] at hok
  cases r with
  | none => trivial
  | some p =>
    obtain ⟨hpge, hp⟩ := htags.found hr
    replace hp : p + 4 ≤ f.len := hp
    dsimp only at hok ⊢
    rw [h.be16 (p + 2) (by omega)]
    by_cases hshort : f.be16 (p + 2) < relayLen
    · rw [if_pos hshort, if_pos hshort]
      trivial
    · rw [if_neg hshort, if_neg hshort]
      obtain ⟨hmagicIn, hok⟩ := hok (Nat.not_lt.mp hshort)
      rw [h.bytes (p + tagHdrLen) 2 (by omega)]
      by_cases hmagic : f.bytes (p + tagHdrLen) 2 = magicCode
      · rw [if_neg (not_not.mpr hmagic), if_neg (not_not.mpr hmagic)]
        have hmacIn : p + tagHdrLen + 2 + 6 ≤ f.len := hok hmagic
        rw [h.mac (p + tagHdrLen + 2) (by omega), h.be16 pppoeLength (by omega)]
        have hwithin₀ : Within f (f.setMac 0 (f.mac (p + tagHdrLen + 2))) :=
          (Within.refl f).setMac _ (by omega)
        have hpull (src len : ℕ) : InsideOpt N f
            ((f.setMac 0 (f.mac (p + tagHdrLen + 2))).pullAndMerge src len)
            ((g.setMac 0 (f.mac (p + tagHdrLen + 2))).pullAndMerge src len) :=
          (pullAndMerge_inside (h.setMac 0 _) (by rwa [Skb.len_setMac]) src len).trans hwithin₀ rfl
        refine (hpull _ _).map fun a b hsame hwithin => ?_
        have hsame' := hsame.store .big pppoeLength (BitVec.ofNat 16 (f.be16 pppoeLength) -
          BitVec.ofNat 16 (tagHdrLen + relayLen -
            if relayLen < f.be16 (p + 2) then tagHdrLen else 0))
        have hwithin' := hwithin.store .big (BitVec.ofNat 16 (f.be16 pppoeLength) -
          BitVec.ofNat 16 (tagHdrLen + relayLen -
            if relayLen < f.be16 (p + 2) then tagHdrLen else 0))
          (by omega : pppoeLength + 2 ≤ f.len)
        by_cases hoff : 0 < if relayLen < f.be16 (p + 2) then tagHdrLen else 0
        · rw [if_pos hoff, if_pos hoff]
          exact ⟨hsame'.store _ _ _, hwithin'.store _ _ (by omega)⟩
        · rw [if_neg hoff, if_neg hoff]
          exact ⟨hsame', hwithin'⟩
      · rw [if_pos hmagic, if_pos hmagic]
        trivial

end Tags

/-! ## All frames -/

section All

variable {w : ℕ} {clk : Clock w} {method : Method} {env : Env w} {s : Adapter w} {f g : Skb}
  {N : ℕ} {log : Bool} {e : Endian} {tailroom : ℕ} {pl : Payload}

/-- A frame that is rewritten, or is refused. -/
theorem Inside.of_opt {a b : Option Skb} (h : Same N f g) :
    InsideOpt N f a b → Inside N f
      (match a with
        | none => { ret := -1, skb := f, adapter := s }
        | some skb => { ret := 0, skb := skb, adapter := s })
      (match b with
        | none => { ret := -1, skb := g, adapter := s }
        | some skb => { ret := 0, skb := skb, adapter := s }) := by
  intro hab
  cases a with
  | none =>
    cases b with
    | none => exact Inside.refl h _ _
    | some b => exact hab.elim
  | some a =>
    cases b with
    | none => exact hab.elim
    | some b => exact ⟨rfl, rfl, hab.1, hab.2⟩

theorem handlePppoe_inside (pl : Payload) (stack : ℕ → Byte) (h : Same N f g) (hN : f.len ≤ N)
    (hskb : ethHlen ≤ f.len) (hok : PppoeOk method s e tailroom f) :
    Inside N f (handlePppoe clk (relayPayload pl e tailroom stack) method env f s)
      (handlePppoe clk (relayPayload pl e tailroom stack) method env g s) := by
  have hethLen : ethHlen = 14 := rfl
  have hsa : g.sa = f.sa := h.mac _ (by omega)
  unfold handlePppoe
  cases method with
  | check =>
    have hsid : pppoeSid g = pppoeSid f := h.bytes _ _ (Nat.le_trans hok hN)
    dsimp only
    rw [hsid]
    exact Inside.refl h _ _
  | insert =>
    obtain ⟨hle, hok⟩ := hok
    have hsid : pppoeSid g = pppoeSid f := h.bytes _ _ (Nat.le_trans hle hN)
    have hcode : isPadiPadr g = isPadiPadr f := by
      rw [isPadiPadr, isPadiPadr, pppoeCode, pppoeCode, h.data _ (by omega)]
    dsimp only
    rw [hsid, hcode, hsa]
    by_cases hzero : pppoeSid f = [0, 0]
    · rw [if_pos hzero, if_pos hzero]
      by_cases hpadi : isPadiPadr f = true
      · rw [if_pos hpadi, if_pos hpadi]
        by_cases hadd : s.ethBrExtInfo.addPPPoETag = true
        · rw [if_pos hadd, if_pos hadd]
          exact Inside.of_opt h (addRelayTag_inside (e := e) stack h hN (hok ⟨hzero, hpadi, hadd⟩))
        · rw [if_neg hadd, if_neg hadd]
          split_ifs <;> exact Inside.refl h _ _
      · rw [if_neg hpadi, if_neg hpadi]
        exact Inside.refl h _ _
    · rw [if_neg hzero, if_neg hzero, networkInsert, networkInsert, hsa,
        h.bytes 0 6 (by omega)]
      split_ifs <;> exact Inside.refl h _ _
  | lookup =>
    obtain ⟨hle, hsidIn, hok⟩ := hok
    have hcode : isPadoPads g = isPadoPads f := by
      rw [isPadoPads, isPadoPads, pppoeCode, pppoeCode, h.data _ (by omega)]
    dsimp only
    rw [hcode]
    by_cases hpado : isPadoPads f = true
    · rw [if_pos hpado, if_pos hpado]
      by_cases hadd : s.ethBrExtInfo.addPPPoETag = true
      · rw [if_pos hadd, if_pos hadd]
        exact Inside.of_opt h (takeRelayTag_inside h hN (hok ⟨hpado, hadd⟩))
      · rw [if_neg hadd, if_neg hadd]
        split_ifs
        · exact Inside.refl h _ _
        · exact ⟨rfl, rfl, h.setMac _ _, (Within.refl f).setMac _ (by omega)⟩
    · rw [if_neg hpado, if_neg hpado]
      have hsid : pppoeSid g = pppoeSid f :=
        h.bytes _ _ (Nat.le_trans (hsidIn (eq_false_of_ne_true hpado)) hN)
      rw [hsid]
      by_cases hzero : pppoeSid f = [0, 0]
      · rw [if_pos hzero, if_pos hzero]
        exact Inside.refl h _ _
      · rw [if_neg hzero, if_neg hzero, h.bytes 6 6 (by omega)]
        obtain ⟨-, hs, hskb', hwithin⟩ := lookupAndReplace_inside clk env s h hskb
          (pppoeNetworkAddr (f.bytes 6 6) (pppoeSid f))
        exact ⟨rfl, hs, hskb', hwithin⟩

theorem findLinkLayerAddr_mono {rd rd' : ℕ → Option Byte} {n data len : ℕ} {r : Option ℕ}
    (hle : ∀ i b, rd i = some b → rd' i = some b)
    (h : findLinkLayerAddr rd n data len = some r) : findLinkLayerAddr rd' n data len = some r := by
  unfold findLinkLayerAddr at h ⊢
  obtain ⟨type, htype, h⟩ := Option.bind_eq_some_iff.mp h
  simp only [hle _ _ htype, Option.bind_eq_bind, Option.bind_some]
  cases hopt : ndOption type with
  | none => simpa [hopt] using h
  | some o =>
    obtain ⟨hdr, tag⟩ := o
    simp only [hopt] at h ⊢
    by_cases hhdr : hdr ≤ len
    · rw [if_pos hhdr] at h ⊢
      exact ((walk_restrict_iff fun q nx => scanTlvStep_mono hle).mp h).1
    · rw [if_neg hhdr] at h ⊢
      exact h

/-- The checksum is computed from the bytes that the host takes to be the message. -/
theorem icmp6Sum_same (c : Csum e) (h : Same N f g) (hle : icmp6Ptr + 4 ≤ N)
    (hlen : icmp6Ptr + (f.load e payloadLen).toNat ≤ N) :
    Same N (icmp6Sum c f) (icmp6Sum c g) := by
  have hptr : icmp6Ptr = 54 := rfl
  have hcksum : icmp6Cksum = 56 := rfl
  have hfield : payloadLen = 18 := rfl
  have hzero := h.store e icmp6Cksum 0
  have hload : (f.store e icmp6Cksum 0).load e payloadLen = f.load e payloadLen := by
    rw [Skb.load, Skb.data_store_of_ne _ _ _ (by omega) (by omega),
      Skb.data_store_of_ne _ _ _ (by omega) (by omega), Skb.load]
  unfold icmp6Sum
  dsimp only
  rw [hzero.load e payloadLen (by omega), hload, ipv6Saddr, ipv6Saddr, ipv6Daddr, ipv6Daddr,
    hzero.bytes _ _ hlen, hzero.bytes (ethHlen + 8) 16 (by rw [ethHlen]; omega),
    hzero.bytes (ethHlen + 24) 16 (by rw [ethHlen]; omega)]
  exact hzero.store _ _ _

theorem handleIpv6_inside (pl : Payload) (c : Csum e) (h : Same N f g) (hN : f.len ≤ N)
    (hskb : ethHlen ≤ f.len)
    (hok : Ipv6Ok method f e) :
    Inside N f (handleIpv6 clk { pl with updateNd := updateNd c } method env f s)
      (handleIpv6 clk { pl with updateNd := updateNd c } method env g s) := by
  have hethLen : ethHlen = 14 := rfl
  have hptr : icmp6Ptr = 54 := rfl
  have hmalEq : ipv6Malformed g = ipv6Malformed f := by rw [ipv6Malformed, ipv6Malformed, h.len]
  unfold handleIpv6
  rw [hmalEq]
  by_cases hmal : ipv6Malformed f = true
  · rw [if_pos hmal, if_pos hmal]
    exact Inside.refl h _ _
  · rw [if_neg hmal, if_neg hmal]
    have hlen := ipv6_len f hskb hmal
    have hsa : g.sa = f.sa := h.mac _ (by omega)
    cases method with
    | check =>
      have hda : g.da = f.da := h.mac _ (by omega)
      dsimp only
      rw [hda]
      exact Inside.refl h _ _
    | lookup =>
      have hdaddr : ipv6Daddr g = ipv6Daddr f := h.bytes _ _ (by omega)
      dsimp only
      rw [hdaddr]
      obtain ⟨-, hs, hskb', hwithin⟩ := lookupAndReplace_inside clk env s h hskb
        (ipv6NetworkAddr (ipv6Daddr f))
      exact ⟨rfl, hs, hskb', hwithin⟩
    | insert =>
      have hsaddr : ipv6Saddr g = ipv6Saddr f := h.bytes _ _ (by omega)
      have hicmpEq : isIcmpv6 g = isIcmpv6 f := by
        rw [isIcmpv6, isIcmpv6, h.data _ (by omega), h.len]
      dsimp only
      rw [hsaddr, hicmpEq]
      by_cases hzero : ipv6Saddr f = zeroIpv6
      · rw [if_pos hzero, if_pos hzero]
        exact Inside.refl h _ _
      · rw [if_neg hzero, if_neg hzero, networkInsert, networkInsert, hsa]
        by_cases hicmp : isIcmpv6 f = true
        · rw [if_pos hicmp, if_pos hicmp, updateNd_eq, updateNd_eq, h.len]
          obtain ⟨hoptions, hsum⟩ := hok (eq_false_of_ne_true hmal) rfl hzero hicmp
          -- the scan of the first frame stays inside, so that of the second one is the same
          obtain ⟨r, hr⟩ := hoptions.find_ends f (by omega)
          obtain ⟨n, hn⟩ := (findLinkLayerAddr_iff f (by omega) r).mpr ⟨hoptions, hr⟩
          have hr' := findLinkLayerAddr_bound (findLinkLayerAddr_mono (h.reads hN) hn)
          rw [show icmp6Ptr + (f.len - icmp6Ptr) = f.len by omega] at hr'
          rw [hr, hr']
          rw [hr] at hsum
          cases r with
          | none => exact Inside.refl h _ _
          | some addr =>
            have haddr := findLinkLayerAddr_some hr
            have hload : (f.setMac addr s.macAddr).load e payloadLen = f.load e payloadLen := by
              have hfield : payloadLen = 18 := rfl
              rw [Skb.load, Skb.data_setMac_of_lt _ _ (by omega),
                Skb.data_setMac_of_lt _ _ (by omega),
                Skb.load]
            have hlong : ethHlen + 40 + 4 < f.len := by
              rw [isIcmpv6, Bool.and_eq_true, decide_eq_true_eq, decide_eq_true_eq] at hicmp
              exact hicmp.2
            have hmsg := hsum rfl
            refine ⟨rfl, rfl, icmp6Sum_same c (h.setMac addr _) (by omega) (by rw [hload]; omega),
              ?_⟩
            have hwithin : Within f (f.setMac addr s.macAddr) := (Within.refl f).setMac _ (by omega)
            have hcksum : icmp6Cksum = 56 := rfl
            intro i hi hi'
            have hdata : (icmp6Sum c (f.setMac addr s.macAddr)).data i =
                (f.setMac addr s.macAddr).data i := data_icmp6Sum c _ (by omega) (by omega)
            exact hdata.trans (hwithin i hi hi)
        · rw [if_neg hicmp, if_neg hicmp]
          exact Inside.refl h _ _

/-- The header in front of IPX and AppleTalk is inside. -/
theorem AccessOk.appleHead (hok : AccessOk log method s f e tailroom)
    (happle : f.protocol = ethPIpx ∨ f.protocol = ethPAtalk ∨ f.protocol = ethPAarp) :
    AppleHeadOk f := by
  have hpacket : packet f = applePacket f := by
    unfold packet
    rw [if_pos happle]
    obtain hp | hp | hp := happle <;> rw [if_neg (by rw [hp]; decide), if_neg (by rw [hp]; decide)]
  unfold AccessOk at hok
  rw [hpacket] at hok
  by_cases hipx : f.protocol = ethPIpx
  · exact fun hne => absurd hipx hne
  · obtain ⟨off, hp⟩ | ⟨off, hp⟩ | ⟨off, hp⟩ | hp := applePacket_cases f
    · rw [hp] at hok
      exact hok.1
    · rw [hp] at hok
      exact hok.1
    · rw [hp] at hok
      exact hok.1
    · rw [hp] at hok
      exact hok (happle.resolve_left hipx)

/-- If the accesses to a frame are inside, what the handler returns depends on the bytes of the
frame only, and the bytes behind it and behind what it becomes are left alone. -/
theorem dbAccess_inside (c : Csum e) (stack : ℕ → Byte) {n : ℕ} (hskb : ethHlen ≤ f.len)
    (hok : dbAccess log method s f e tailroom n = some ()) (hN : f.len ≤ N) (h : Same N f g) :
    Inside N f
      (nat25DbHandle clk { relayPayload pl e tailroom stack with updateNd := updateNd c } method env
        f s)
      (nat25DbHandle clk { relayPayload pl e tailroom stack with updateNd := updateNd c } method env
        g s) := by
  have haccess := (dbAccess_iff log method s f e tailroom hskb).mp ⟨n, hok⟩
  have hpacket : packet g = packet f :=
    packet_same h hN hskb fun happle => haccess.appleHead happle
  unfold nat25DbHandle
  unfold AccessOk at haccess
  rw [hpacket]
  cases hf : packet f with
  | ip =>
    rw [hf] at haccess
    exact handleIp_inside h hN haccess
  | arp =>
    rw [hf] at haccess
    exact handleArp_inside h hN haccess
  | ipx off =>
    rw [hf] at haccess
    exact handleIpx_inside h hN hskb haccess.2
  | aarp off =>
    rw [hf] at haccess
    exact handleAarp_inside h hN hskb haccess.2
  | ddp off =>
    rw [hf] at haccess
    exact handleDdp_inside h hN hskb haccess.2
  | pppoe =>
    rw [hf] at haccess
    exact handlePppoe_inside { pl with updateNd := updateNd c } stack h hN hskb haccess
  | ipv6 =>
    rw [hf] at haccess
    exact handleIpv6_inside (relayPayload pl e tailroom stack) c h hN hskb haccess
  | passed => exact Inside.refl h _ _
  | unknown => exact Inside.refl h _ _

end All

end Rtl88x2cu.Nat25
