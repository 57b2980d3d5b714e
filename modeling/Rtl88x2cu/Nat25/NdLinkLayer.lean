import Rtl88x2cu.Lib.Walker
import Rtl88x2cu.Nat25.DhcpFlag

/-!
# Link-layer addresses in neighbour discovery

`scan_tlv` and `update_nd_link_layer_addr` (`core/rtw_br_ext.c`) look for the option with the
link-layer address in a message of neighbour discovery and put the address of the adapter there. The
checksum of ICMPv6 is computed again (`updateNd`), by two functions of the kernel, over a length
that is in the order of the network; `updateNd_valid_iff` says when it is right.

The bytes are read by a function `rd`, that may fail where there are none.
-/

namespace Rtl88x2cu.Nat25

open Bytes (Byte)
open OnesComplement Walker

/-! ## The functions -/

/-- The memory of a frame, with what is behind it. -/
def Skb.anywhere (skb : Skb) (i : ℕ) : Option Byte := some (skb.data i)

section Scan

variable (rd : ℕ → Option Byte)

/-- An iteration of `scan_tlv`, for options that end at `fin`. -/
def scanTlvStep (fin : ℕ) (tag len8b : Byte) (data : ℕ) : Option (Next (Option ℕ)) :=
  if data < fin then do
    let t ← rd data
    let l ← rd (data + 1)
    if t = tag ∧ l = len8b ∧ len8b.toNat * 8 ≤ fin - data then some (.done (some (data + 2)))
    else some (.goto (data + l.toNat * 8))
  else some (.done none)

/-- The length of a neighbour discovery message in front of the options, and the option with the
address: that of the source in solicitations and advertisements of a router and in neighbour
solicitations, that of the target in neighbour advertisements and redirections. -/
def ndOption (icmp6Type : Byte) : Option (ℕ × Byte) :=
  if icmp6Type = 133 then some (8, 1)
  else if icmp6Type = 134 then some (16, 1)
  else if icmp6Type = 135 then some (24, 1)
  else if icmp6Type = 136 then some (24, 2)
  else if icmp6Type = 137 then some (40, 2)
  else none

/-- The search of `update_nd_link_layer_addr` for the address, in a message of `len` bytes at
`data`. -/
def findLinkLayerAddr (n data len : ℕ) : Option (Option ℕ) := do
  match ndOption (← rd data) with
  | none => some none
  | some (hdr, tag) =>
    if hdr ≤ len then walk (scanTlvStep rd (data + len) tag 1) n (data + hdr) else some none

end Scan

/-- The bytes of a number of 32 bits, in the order of the network. -/
def be32 (v : ℕ) : List Byte :=
  [BitVec.ofNat 8 (v / 2 ^ 24), BitVec.ofNat 8 (v / 2 ^ 16), BitVec.ofNat 8 (v / 2 ^ 8),
    BitVec.ofNat 8 v]

/-- The pseudo header of IPv6. -/
def pseudoHeader (saddr daddr : List Byte) (len proto : ℕ) : List Byte :=
  saddr ++ (daddr ++ (be32 len ++ be32 proto))

/-- The functions of the kernel for checksums, on a host with the order `e`. -/
structure Csum (e : Endian) where
  /-- `csum_partial`, of the bytes that it is given, added to a sum. -/
  csumPartial : List Byte → ℕ → ℕ
  csumPartial_modEq : ∀ buff sum, csumPartial buff sum ≡ sum + e.sum buff [MOD 65535]
  /-- `csum_ipv6_magic`: the complement of a sum, to which the pseudo header has been added. -/
  csumIpv6Magic : List Byte → List Byte → ℕ → ℕ → ℕ → BitVec 16
  csumIpv6Magic_modEq : ∀ saddr daddr len proto csum,
    (csumIpv6Magic saddr daddr len proto csum).toNat +
      (e.sum (pseudoHeader saddr daddr len proto) + csum) ≡ 0 [MOD 65535]

variable {e : Endian} (c : Csum e) (mac : EthAddr) (skb : Skb)

/-- The ICMPv6 message, behind the IPv6 header. -/
def icmp6Ptr : ℕ := ethHlen + 40

/-- `hdr->icmp6_cksum`. -/
def icmp6Cksum : ℕ := icmp6Ptr + 2

/-- `iph->payload_len`. -/
def payloadLen : ℕ := ethHlen + 4

/-- The checksum is computed again, over a message of the length `iph->payload_len`: the field is in
the order of the network. -/
def icmp6Sum : Skb :=
  let skb := skb.store e icmp6Cksum 0
  let len := (skb.load e payloadLen).toNat
  let csum := c.csumPartial (skb.bytes icmp6Ptr len) 0
  skb.store e icmp6Cksum (c.csumIpv6Magic (ipv6Saddr skb) (ipv6Daddr skb) len 58 csum)

/-- `update_nd_link_layer_addr`, and the checksum. The number of iterations is enough for any scan
that ends (`findLinkLayerAddr_bound`); a frame with a scan that does not end is left alone here. -/
def updateNd : Skb :=
  match findLinkLayerAddr skb.anywhere skb.len icmp6Ptr (skb.len - icmp6Ptr) with
  | some (some addr) => icmp6Sum c (skb.setMac addr mac)
  | some none => skb
  | none => skb

/-! ## The scan -/

section Scan

variable {rd : ℕ → Option Byte} {fin : ℕ} {tag len8b : Byte} {data len n : ℕ}

theorem scanTlvStep_goto {q q' : ℕ} (h : scanTlvStep rd fin tag len8b q = some (.goto q')) :
    q ≤ q' ∧ q < fin := by
  unfold scanTlvStep at h
  split_ifs at h with hlt
  cases ht : rd q with
  | none => simp [ht] at h
  | some t =>
    cases hl : rd (q + 1) with
    | none => simp [ht, hl] at h
    | some l =>
      simp only [ht, hl, Option.bind_eq_bind, Option.bind_some] at h
      split_ifs at h with htag
      · cases h
      · obtain rfl := Next.goto.inj (Option.some.inj h)
        exact ⟨Nat.le_add_right _ _, hlt⟩
  · cases h

theorem scanTlvStep_done {q addr : ℕ}
    (h : scanTlvStep rd fin tag len8b q = some (.done (some addr))) :
    addr = q + 2 ∧ q + len8b.toNat * 8 ≤ fin := by
  unfold scanTlvStep at h
  split_ifs at h with hlt
  · cases ht : rd q with
    | none => simp [ht] at h
    | some t =>
      cases hl : rd (q + 1) with
      | none => simp [ht, hl] at h
      | some l =>
        simp only [ht, hl, Option.bind_eq_bind, Option.bind_some] at h
        split_ifs at h with htag
        · cases h
          exact ⟨rfl, by omega⟩
        · cases h
  · cases h

/-- The headers of all messages are longer than the checksum. -/
theorem le_of_ndOption {type : Byte} {hdr : ℕ} (h : ndOption type = some (hdr, tag)) : 8 ≤ hdr := by
  unfold ndOption at h
  split_ifs at h <;> cases h <;> decide

/-- The address is inside the message, behind the header. -/
theorem findLinkLayerAddr_some {addr : ℕ} (h : findLinkLayerAddr rd n data len = some (some addr)) :
    data + 10 ≤ addr ∧ addr + 6 ≤ data + len := by
  unfold findLinkLayerAddr at h
  cases ht : rd data with
  | none => simp [ht] at h
  | some type =>
    simp only [ht, Option.bind_eq_bind, Option.bind_some] at h
    cases hopt : ndOption type with
    | none => simp [hopt] at h
    | some o =>
      obtain ⟨hdr, tag⟩ := o
      have hle := le_of_ndOption hopt
      simp only [hopt] at h
      split_ifs at h with hhdr
      · obtain ⟨q, hq, hdone⟩ := walk_reaches h
        have hge := hq.le fun q q' hs => (scanTlvStep_goto hs).1
        obtain ⟨haddr, hfin⟩ := scanTlvStep_done hdone
        have h8 : (1 : Byte).toNat * 8 = 8 := rfl
        omega
      · cases h

/-- A scan that ends does so after few iterations. -/
theorem findLinkLayerAddr_bound {r : Option ℕ} (h : findLinkLayerAddr rd n data len = some r) :
    findLinkLayerAddr rd (data + len) data len = some r := by
  unfold findLinkLayerAddr at h ⊢
  cases ht : rd data with
  | none => simp [ht] at h
  | some type =>
    simp only [ht, Option.bind_eq_bind, Option.bind_some] at h ⊢
    cases hopt : ndOption type with
    | none => simpa [hopt] using h
    | some o =>
      obtain ⟨hdr, tag⟩ := o
      have hle := le_of_ndOption hopt
      simp only [hopt] at h ⊢
      split_ifs at h ⊢ with hhdr
      · have hmono : ∀ q q', scanTlvStep rd (data + len) tag 1 q = some (.goto q') →
            q ≤ q' ∧ q < data + len := fun q q' hs => scanTlvStep_goto hs
        exact walk_mono (walk_bound _ hmono h) (by omega)
      · exact h

end Scan

/-! ## Checksums of ICMPv6 -/

/-- The length of the message. -/
def icmp6Len (skb : Skb) : ℕ := skb.be16 payloadLen

/-- What the checksum of ICMPv6 is over. -/
def icmp6Summed (skb : Skb) : List Byte :=
  pseudoHeader (ipv6Saddr skb) (ipv6Daddr skb) (icmp6Len skb) 58 ++
    skb.bytes icmp6Ptr (icmp6Len skb)

/-- An ICMPv6 message in an IPv6 packet. -/
structure IsIcmpv6 (skb : Skb) : Prop where
  protocol : skb.protocol = ethPIpv6
  nexthdr : skb.data (ethHlen + 6) = 58
  len : 4 ≤ icmp6Len skb

/-- An ICMPv6 message with the right checksum. -/
structure Icmpv6Valid (skb : Skb) : Prop extends IsIcmpv6 skb where
  sum : foldCarry (Endian.big.sum (icmp6Summed skb)) = 65535

/-- What `n` bytes of the message, without the checksum, and their number add to a sum. -/
def sumOf (skb : Skb) (n : ℕ) : ℕ :=
  n + Endian.big.sum ((skb.store .big icmp6Cksum 0).bytes icmp6Ptr n)

/-- The length of the message, as the host loads it, gives the same sum as the length itself. -/
def SumsAgree (e : Endian) (skb : Skb) : Prop :=
  sumOf skb (icmp6Len skb) ≡ sumOf skb (skb.load e payloadLen).toNat [MOD 65535]

section Sum

variable {skb skb' : Skb} {n : ℕ}

/-- On a host with the order of the network, nothing can go wrong. -/
theorem sumsAgree_big (skb : Skb) : SumsAgree .big skb := by
  rw [SumsAgree, icmp6Len, Skb.be16_eq_load]

theorem length_ipv6Saddr (skb : Skb) : (ipv6Saddr skb).length = 16 := Skb.length_bytes _ _ _

theorem length_ipv6Daddr (skb : Skb) : (ipv6Daddr skb).length = 16 := Skb.length_bytes _ _ _

theorem sum_be32 {v : ℕ} (h : v < 65536) : Endian.big.sum (be32 v) = v := by
  rw [be32, Endian.sum, Endian.sum, Endian.sum, Endian.toNat_load_big, Endian.toNat_load_big]
  simp only [BitVec.toNat_ofNat]
  omega

theorem sum_pseudoHeader {saddr daddr : List Byte} (hs : saddr.length = 16)
    (hd : daddr.length = 16) {len : ℕ} (hlen : len < 65536) :
    Endian.big.sum (pseudoHeader saddr daddr len 58) =
      Endian.big.sum saddr + (Endian.big.sum daddr + (len + 58)) := by
  have hproto : Endian.big.sum (be32 58) = 58 := sum_be32 (by decide)
  rw [pseudoHeader, Endian.sum_append (by rw [hs]; decide), Endian.sum_append (by rw [hd]; decide),
    Endian.sum_append (show Even (be32 len).length from ⟨2, rfl⟩), sum_be32 hlen, hproto]

theorem length_pseudoHeader {saddr daddr : List Byte} (hs : saddr.length = 16)
    (hd : daddr.length = 16) (len proto : ℕ) : (pseudoHeader saddr daddr len proto).length =
      40 := by
  simp [pseudoHeader, be32, hs, hd]

theorem store_zero (e : Endian) (skb : Skb) (off : ℕ) :
    skb.store e off 0 = skb.store .big off 0 := by
  cases e <;> rfl

/-- The checksum is a part of the sum over a message. -/
theorem sum_bytes_icmp6 (h : ∀ i, i ≠ icmp6Cksum → i ≠ icmp6Cksum + 1 → skb'.data i = skb.data i)
    (hn : 4 ≤ n) :
    n + Endian.big.sum (skb'.bytes icmp6Ptr n) = sumOf skb n + skb'.be16 icmp6Cksum := by
  have hsplit (f : Skb) : Endian.big.sum (f.bytes icmp6Ptr n) =
      Endian.big.sum (f.bytes icmp6Ptr 2) +
        (f.be16 icmp6Cksum + Endian.big.sum (f.bytes (icmp6Ptr + 4) (n - 4))) := by
    have hlen : n = 2 + (2 + (n - 4)) := by omega
    rw [hlen, Skb.bytes_add, Skb.bytes_add, Endian.sum_append (by rw [Skb.length_bytes]; decide),
      Endian.sum_append (by rw [Skb.length_bytes]; decide), Nat.add_assoc icmp6Ptr,
      show 2 + (2 + (n - 4)) - 4 = n - 4 by omega]
    congr 2
    exact Endian.toNat_load_big _ _
  obtain ⟨zeroed, hzeroed⟩ : ∃ z, z = skb.store .big icmp6Cksum 0 := ⟨_, rfl⟩
  have hsame : ∀ i, i ≠ icmp6Cksum → i ≠ icmp6Cksum + 1 → skb'.data i = zeroed.data i := by
    intro i h₁ h₂
    rw [h i h₁ h₂, hzeroed, Skb.data_store_of_ne _ _ _ h₁ h₂]
  have hhead : skb'.bytes icmp6Ptr 2 = zeroed.bytes icmp6Ptr 2 :=
    Skb.bytes_congr fun i hi hi' => by
      refine hsame i ?_ ?_ <;> simp only [icmp6Cksum] <;> omega
  have htail : skb'.bytes (icmp6Ptr + 4) (n - 4) = zeroed.bytes (icmp6Ptr + 4) (n - 4) :=
    Skb.bytes_congr fun i hi hi' => by
      refine hsame i ?_ ?_ <;> simp only [icmp6Cksum] <;> omega
  have hzero : zeroed.be16 icmp6Cksum = 0 := by
    rw [hzeroed, Skb.be16_eq_load, Skb.load_store]
    rfl
  rw [sumOf, ← hzeroed, hsplit, hsplit, hhead, htail, hzero]
  omega

end Sum

section Icmp6Sum

variable {c} {f f' : Skb}

theorem data_icmp6Sum (c : Csum e) (f : Skb) {i : ℕ} (h₁ : i ≠ icmp6Cksum)
    (h₂ : i ≠ icmp6Cksum + 1) : (icmp6Sum c f).data i = f.data i := by
  rw [icmp6Sum, Skb.data_store_of_ne _ _ _ h₁ h₂, Skb.data_store_of_ne _ _ _ h₁ h₂]

/-- Two frames with the same headers of Ethernet and of IPv6. -/
def SameHeaders (f f' : Skb) : Prop := ∀ i < icmp6Ptr, f'.data i = f.data i

namespace SameHeaders

variable (h : SameHeaders f f')
include h

theorem be16_eq {off : ℕ} (hoff : off + 1 < icmp6Ptr) : f'.be16 off = f.be16 off := by
  rw [Skb.be16, Skb.be16, h off (by omega), h (off + 1) hoff]

theorem load_eq (e : Endian) {off : ℕ} (hoff : off + 1 < icmp6Ptr) :
    f'.load e off = f.load e off := by
  rw [Skb.load, Skb.load, h off (by omega), h (off + 1) hoff]

theorem bytes_eq {off n : ℕ} (hoff : off + n ≤ icmp6Ptr) : f'.bytes off n = f.bytes off n :=
  Skb.bytes_congr fun i _ hi => h i (by omega)

theorem isIcmpv6 (hf : IsIcmpv6 f) : IsIcmpv6 f' := by
  refine ⟨?_, ?_, ?_⟩
  · exact (h.be16_eq (by decide)).trans hf.protocol
  · exact (h _ (by decide)).trans hf.nexthdr
  · exact hf.len.trans_eq (h.be16_eq (by decide)).symm

end SameHeaders

/-- The checksum that is computed again, in the order of the network. -/
theorem be16_icmp6Sum (c : Csum e) (f : Skb) :
    (icmp6Sum c f).be16 icmp6Cksum + (Endian.big.sum (ipv6Saddr f) +
      (Endian.big.sum (ipv6Daddr f) + (sumOf f (f.load e payloadLen).toNat + 58))) ≡ 0
      [MOD 65535] := by
  obtain ⟨zeroed, hzeroed⟩ : ∃ z, z = f.store e icmp6Cksum 0 := ⟨_, rfl⟩
  have hheaders : SameHeaders f zeroed := by
    intro i hi
    rw [hzeroed, Skb.data_store_of_ne] <;>
    · simp only [icmp6Cksum]
      omega
  have hload : zeroed.load e payloadLen = f.load e payloadLen := hheaders.load_eq e (by decide)
  have hsaddr : ipv6Saddr zeroed = ipv6Saddr f := hheaders.bytes_eq (by decide)
  have hdaddr : ipv6Daddr zeroed = ipv6Daddr f := hheaders.bytes_eq (by decide)
  obtain ⟨len, hlen⟩ : ∃ len, len = (f.load e payloadLen).toNat := ⟨_, rfl⟩
  have hlt : len < 65536 := hlen ▸ BitVec.isLt _
  obtain ⟨csum, hcsum⟩ : ∃ csum, csum = c.csumPartial (zeroed.bytes icmp6Ptr len) 0 := ⟨_, rfl⟩
  have hcheck : (icmp6Sum c f).load e icmp6Cksum =
      c.csumIpv6Magic (ipv6Saddr f) (ipv6Daddr f) len 58 csum := by
    rw [icmp6Sum, ← hzeroed, Skb.load_store, hload, hsaddr, hdaddr, ← hlen, ← hcsum]
  -- the three parts of the sum, in the order of the host
  have hmagic := c.csumIpv6Magic_modEq (ipv6Saddr f) (ipv6Daddr f) len 58 csum
  have hpartial := c.csumPartial_modEq (zeroed.bytes icmp6Ptr len) 0
  rw [← hcsum, Nat.zero_add] at hpartial
  have hnet := (icmp6Sum c f).load_modEq e icmp6Cksum
  rw [hcheck] at hnet
  have hhost : e.scale * ((icmp6Sum c f).be16 icmp6Cksum +
      (Endian.big.sum (pseudoHeader (ipv6Saddr f) (ipv6Daddr f) len 58) +
        Endian.big.sum (zeroed.bytes icmp6Ptr len))) ≡ e.scale * 0 [MOD 65535] := by
    rw [Nat.mul_zero, Nat.mul_add, Nat.mul_add]
    refine Nat.ModEq.trans ?_ hmagic
    exact hnet.symm.add ((e.sum_modEq _).symm.add ((e.sum_modEq _).symm.trans hpartial.symm))
  have hcancel := Nat.ModEq.cancel_left_of_coprime e.scale_coprime hhost
  rw [sum_pseudoHeader (length_ipv6Saddr f) (length_ipv6Daddr f) hlt] at hcancel
  rw [← hlen, sumOf, ← store_zero e, ← hzeroed]
  rw [Nat.ModEq] at hcancel ⊢
  omega

/-- The checksum that is computed again is right if and only if the length of the message, as the
host loads it, gives the right sum. -/
theorem icmp6Sum_valid_iff (c : Csum e) (h : IsIcmpv6 f) :
    Icmpv6Valid (icmp6Sum c f) ↔ SumsAgree e f := by
  obtain ⟨f', hf'⟩ : ∃ f', f' = icmp6Sum c f := ⟨_, rfl⟩
  have hsame : ∀ i, i ≠ icmp6Cksum → i ≠ icmp6Cksum + 1 → f'.data i = f.data i := by
    intro i h₁ h₂
    rw [hf', data_icmp6Sum c f h₁ h₂]
  have hheaders : SameHeaders f f' := by
    intro i hi
    refine hsame i ?_ ?_ <;> simp only [icmp6Cksum] <;> omega
  have hlen : icmp6Len f' = icmp6Len f := hheaders.be16_eq (by decide)
  have hsaddr : ipv6Saddr f' = ipv6Saddr f := hheaders.bytes_eq (by decide)
  have hdaddr : ipv6Daddr f' = ipv6Daddr f := hheaders.bytes_eq (by decide)
  have hlt : icmp6Len f < 65536 := by
    rw [icmp6Len, Skb.be16_eq_load]
    exact BitVec.isLt _
  have hcheck := be16_icmp6Sum c f
  have hmsg := sum_bytes_icmp6 hsame h.len
  rw [← hf'] at hcheck ⊢
  have hs := length_ipv6Saddr f
  have hd := length_ipv6Daddr f
  have hsum : Endian.big.sum (icmp6Summed f') = Endian.big.sum (ipv6Saddr f) +
      (Endian.big.sum (ipv6Daddr f) + (icmp6Len f + 58)) +
        Endian.big.sum (f'.bytes icmp6Ptr (icmp6Len f)) := by
    rw [icmp6Summed, hlen, hsaddr, hdaddr,
      Endian.sum_append (by rw [length_pseudoHeader hs hd]; decide), sum_pseudoHeader hs hd hlt]
  have hiff : Icmpv6Valid f' ↔ Endian.big.sum (icmp6Summed f') ≡ 0 [MOD 65535] :=
    ⟨fun hv => (foldCarry_eq_ones.mp hv.sum).2, fun hmod =>
      ⟨hheaders.isIcmpv6 h, foldCarry_eq_ones.mpr ⟨by omega, hmod⟩⟩⟩
  rw [hiff, SumsAgree, hsum]
  rw [Nat.ModEq] at hcheck ⊢
  rw [Nat.ModEq]
  omega

end Icmp6Sum

/-! ## The rewriting -/

/-- Where an address is put in a frame that is inserted. -/
def ndAddr (skb : Skb) : Option ℕ :=
  if packet skb = .ipv6 ∧ ipv6Malformed skb = false ∧ ipv6Saddr skb ≠ zeroIpv6 ∧
      isIcmpv6 skb = true then
    (findLinkLayerAddr skb.anywhere skb.len icmp6Ptr (skb.len - icmp6Ptr)).join
  else none

section Rewriting

variable {w : ℕ} {clk : Clock w} {pl : Payload} {env : Env w} {s : Adapter w} {skb : Skb} {addr : ℕ}

theorem ndAddr_some (h : ndAddr skb = some addr) : icmp6Ptr + 10 ≤ addr := by
  unfold ndAddr at h
  split_ifs at h
  · obtain h := Option.join_eq_some_iff.mp h
    exact (findLinkLayerAddr_some h).1

theorem updateNd_eq (c : Csum e) (mac : EthAddr) (skb : Skb) :
    updateNd c mac skb =
      (findLinkLayerAddr skb.anywhere skb.len icmp6Ptr (skb.len - icmp6Ptr)).join.elim skb
        fun addr => icmp6Sum c (skb.setMac addr mac) := by
  unfold updateNd
  split <;> simp_all

/-- The frame that is inserted. -/
theorem skb_nat25DbHandle_insert (c : Csum e) (hskb : packet skb = .ipv6) :
    (nat25DbHandle clk { pl with updateNd := updateNd c } .insert env skb s).skb =
      (ndAddr skb).elim skb fun addr => icmp6Sum c (skb.setMac addr s.macAddr) := by
  unfold nat25DbHandle ndAddr
  rw [hskb]
  dsimp only [handleIpv6]
  by_cases hmal : ipv6Malformed skb = true
  · simp [hmal]
  · by_cases hsaddr : ipv6Saddr skb = zeroIpv6
    · simp [hmal, hsaddr]
    · rw [if_neg hmal, if_neg hsaddr]
      by_cases hicmp : isIcmpv6 skb = true
      · rw [if_pos hicmp,
          if_pos (And.intro rfl ⟨eq_false_of_ne_true hmal, hsaddr, hicmp⟩), ← updateNd_eq]
      · rw [if_neg hicmp, if_neg (fun h => hicmp h.2.2.2)]
        rfl

/-- A frame whose checksum is right is rewritten to one whose checksum is right if and only if the
length of the message, as the host loads it, gives the right sum of the message with the new
address. -/
theorem insert_icmpv6Valid_iff (c : Csum e) (h : Icmpv6Valid skb) :
    Icmpv6Valid (nat25DbHandle clk { pl with updateNd := updateNd c } .insert env skb s).skb ↔
      ∀ addr, ndAddr skb = some addr → SumsAgree e (skb.setMac addr s.macAddr) := by
  have hskb : packet skb = .ipv6 := by
    unfold packet
    rw [h.protocol]
    rfl
  rw [skb_nat25DbHandle_insert c hskb]
  cases hnd : ndAddr skb with
  | none => exact iff_of_true h fun addr haddr => nomatch haddr
  | some addr =>
    have hle := ndAddr_some hnd
    have hheaders : SameHeaders skb (skb.setMac addr s.macAddr) := fun i hi =>
      Skb.data_setMac_of_lt skb s.macAddr (by omega)
    rw [Option.elim_some, icmp6Sum_valid_iff c (hheaders.isIcmpv6 h.toIsIcmpv6)]
    constructor
    · rintro hagree addr' haddr
      obtain rfl := Option.some.inj haddr
      exact hagree
    · exact fun hall => hall addr rfl

end Rewriting

end Rtl88x2cu.Nat25
