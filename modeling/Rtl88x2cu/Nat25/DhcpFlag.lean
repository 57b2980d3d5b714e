import Rtl88x2cu.Nat25.Handle

/-!
# The broadcast flag of DHCP requests

`dhcp_flag_bcast` (`core/rtw_br_ext.c`) sets the BROADCAST flag of the DHCP requests that a client
of the bridge sends, and updates the checksum of UDP: it takes the new flags field from the
checksum, all of it, where the difference of the new and the old field would be right.
`dhcpFlagBcast_valid_iff` and `dhcpFlagBcast_absent_iff` say what becomes of a checksum.
-/

namespace Rtl88x2cu.Nat25

open Bytes (Byte)
open OnesComplement

/-! ## The function -/

/-- `udph`, behind the IP header. -/
def udpPtr (skb : Skb) : ℕ := ethHlen + ipHdrLen skb

/-- `udph->check`. -/
def udpCheck (skb : Skb) : ℕ := udpPtr skb + 6

/-- `dhcph->flags`. -/
def dhcpFlags (skb : Skb) : ℕ := udpPtr skb + 8 + 10

/-- `dhcph->cookie`. -/
def dhcpCookie (skb : Skb) : ℕ := udpPtr skb + 8 + 236

/-- `BROADCAST_FLAG`. -/
def broadcastFlag : BitVec 16 := 0x8000

/-- A DHCP message from the client port to the server port, with the magic word. -/
def isDhcpRequest (skb : Skb) : Bool :=
  skb.protocol = ethPIp && skb.data (ethHlen + 9) = 17 && skb.be16 (udpPtr skb) = 68 &&
    skb.be16 (udpPtr skb + 2) = 67 && skb.bytes (dhcpCookie skb) 4 = [0x63, 0x82, 0x53, 0x63]

variable {w : ℕ} (e : Endian) (s : Adapter w) (skb : Skb)

/-- `dhcp_flag_bcast`. -/
def dhcpFlagBcast : Skb :=
  if !s.ethBrExtInfo.dhcpBcstDisable && isDhcpRequest skb then
    -- if not broadcast
    if skb.load e (dhcpFlags skb) &&& e.htons broadcastFlag = 0 then
      let flags := skb.load e (dhcpFlags skb) ||| e.htons broadcastFlag
      let skb' := skb.store e (dhcpFlags skb) flags
      skb'.store e (udpCheck skb) (addCompl (skb'.load e (udpCheck skb)) flags)
    else skb
  else skb

/-! ## Checksums of UDP -/

/-- The length field of UDP. -/
def udpLen (skb : Skb) : ℕ := skb.be16 (udpPtr skb + 4)

/-- What the checksum of UDP is over: the addresses, the protocol and the length, and the
datagram. -/
def udpSummed (skb : Skb) : List Byte :=
  skb.bytes (ethHlen + 12) 8 ++ ([0, 17] ++ (skb.bytes (udpPtr skb + 4) 2 ++
    skb.bytes (udpPtr skb) (udpLen skb)))

/-- A UDP datagram in an IPv4 packet. -/
structure IsUdp (skb : Skb) : Prop where
  protocol : skb.protocol = ethPIp
  ihl : 20 ≤ ipHdrLen skb
  udp : skb.data (ethHlen + 9) = 17
  udpLen : 8 ≤ udpLen skb

/-- A UDP datagram with a checksum, which is right. -/
structure UdpValid (skb : Skb) : Prop extends IsUdp skb where
  present : skb.be16 (udpCheck skb) ≠ 0
  sum : foldCarry (Endian.big.sum (udpSummed skb)) = 65535

/-- A UDP datagram without a checksum. -/
structure UdpAbsent (skb : Skb) : Prop extends IsUdp skb where
  absent : skb.be16 (udpCheck skb) = 0

/-! ## What is rewritten -/

/-- The flag is set in a frame. -/
def SetsFlag : Prop :=
  s.ethBrExtInfo.dhcpBcstDisable = false ∧ isDhcpRequest skb = true ∧
    skb.be16 (dhcpFlags skb) < 0x8000

/-- The frame `skb'` is the frame `skb` with the flag, and with a checksum from which the new flags
have been taken. -/
structure FlagSet (skb skb' : Skb) : Prop where
  same : ∀ i, i ≠ udpCheck skb → i ≠ udpCheck skb + 1 → i ≠ dhcpFlags skb →
    skb'.data i = skb.data i
  flags : (skb'.data (dhcpFlags skb)).toNat = (skb.data (dhcpFlags skb)).toNat + 128
  check : skb'.be16 (udpCheck skb) + (skb.be16 (dhcpFlags skb) + 0x8000) ≡
    skb.be16 (udpCheck skb) [MOD 65535]
  check_eq_zero : skb'.be16 (udpCheck skb) = 0 ↔
    skb.be16 (dhcpFlags skb) + 0x8000 ≡ skb.be16 (udpCheck skb) [MOD 65535]

variable {e s skb} {skb' : Skb}

theorem htons_broadcastFlag (e : Endian) : e.htons broadcastFlag = e.load 0x80 0x00 := by
  cases e <;> rfl

theorem toNat_or_flag : ∀ b : Byte, b &&& 0x80 = 0 → (b ||| 0x80).toNat = b.toNat + 128 := by
  decide

theorem and_flag_eq_zero : ∀ b : Byte, b &&& 0x80 = 0 ↔ b.toNat < 128 := by
  decide

theorem flags_and_eq_zero (e : Endian) :
    skb.load e (dhcpFlags skb) &&& e.htons broadcastFlag = 0 ↔
      skb.be16 (dhcpFlags skb) < 0x8000 := by
  rw [htons_broadcastFlag, Skb.load, Endian.load_and_load, Endian.load_eq_zero, and_flag_eq_zero,
    Skb.be16]
  have hb := (skb.data (dhcpFlags skb + 1)).isLt
  constructor
  · intro h
    omega
  · intro h
    exact ⟨by omega, BitVec.and_zero⟩

theorem dhcpFlagBcast_of_not (h : ¬ SetsFlag s skb) : dhcpFlagBcast e s skb = skb := by
  unfold dhcpFlagBcast
  split_ifs with hreq hflags
  · rw [Bool.and_eq_true, Bool.not_eq_true'] at hreq
    exact absurd ⟨hreq.1, hreq.2, (flags_and_eq_zero e).mp hflags⟩ h
  · rfl
  · rfl

/-- The flags field with the flag. -/
def flagsWith (e : Endian) (skb : Skb) : BitVec 16 :=
  skb.load e (dhcpFlags skb) ||| e.htons broadcastFlag

theorem flagsWith_eq (e : Endian) (skb : Skb) :
    flagsWith e skb =
      e.load (skb.data (dhcpFlags skb) ||| 0x80) (skb.data (dhcpFlags skb + 1)) := by
  rw [flagsWith, htons_broadcastFlag, Skb.load, Endian.load_or_load]
  exact congrArg _ BitVec.or_zero

/-- In the order of the network, the flag is the highest bit. -/
theorem flagsWith_modEq (e : Endian) (h : skb.be16 (dhcpFlags skb) < 0x8000) :
    (flagsWith e skb).toNat ≡ e.scale * (skb.be16 (dhcpFlags skb) + 0x8000) [MOD 65535] := by
  have hand : skb.data (dhcpFlags skb) &&& 0x80 = 0 := by
    rw [and_flag_eq_zero]
    rw [Skb.be16] at h
    omega
  have hbig : (Endian.big.load (skb.data (dhcpFlags skb) ||| 0x80)
      (skb.data (dhcpFlags skb + 1))).toNat = skb.be16 (dhcpFlags skb) + 0x8000 := by
    rw [Endian.toNat_load_big, toNat_or_flag _ hand, Skb.be16]
    omega
  rw [flagsWith_eq, ← hbig]
  exact Endian.load_modEq e _ _

theorem flagsWith_ne_zero (e : Endian) (skb : Skb) : flagsWith e skb ≠ 0 := by
  rw [flagsWith_eq, Ne, Endian.load_eq_zero, not_and_or]
  have hne : ∀ b : Byte, b ||| 0x80 ≠ 0 := by decide
  exact Or.inl (hne _)

theorem dhcpFlagBcast_eq (h : SetsFlag s skb) :
    dhcpFlagBcast e s skb = (skb.store e (dhcpFlags skb) (flagsWith e skb)).store e (udpCheck skb)
      (addCompl (skb.load e (udpCheck skb)) (flagsWith e skb)) := by
  obtain ⟨henabled, hreq, hclear⟩ := h
  have hcheck : (skb.store e (dhcpFlags skb) (flagsWith e skb)).load e (udpCheck skb) =
      skb.load e (udpCheck skb) := by
    have hne : udpCheck skb + 1 < dhcpFlags skb := by
      simp only [udpCheck, dhcpFlags]
      omega
    simp (disch := omega) only [Skb.load, Skb.data_store_of_ne]
  unfold dhcpFlagBcast
  rw [henabled, hreq, if_pos (by rfl), if_pos ((flags_and_eq_zero e).mpr hclear)]
  dsimp only
  rw [← flagsWith, hcheck]

theorem dhcpFlagBcast_of_setsFlag (h : SetsFlag s skb) : FlagSet skb (dhcpFlagBcast e s skb) := by
  have hlt : udpCheck skb + 1 < dhcpFlags skb := by
    simp only [udpCheck, dhcpFlags]
    omega
  obtain ⟨skb', hskb'⟩ : ∃ skb', skb' = dhcpFlagBcast e s skb := ⟨_, rfl⟩
  have heq := hskb'.trans (dhcpFlagBcast_eq h)
  rw [← hskb']
  -- the words that are read and written, in the order of the network
  have hflags := flagsWith_modEq e h.2.2
  have hold := skb.load_modEq e (udpCheck skb)
  have hload : skb'.load e (udpCheck skb) =
      addCompl (skb.load e (udpCheck skb)) (flagsWith e skb) := by
    rw [heq, Skb.load_store]
  have hnew := skb'.load_modEq e (udpCheck skb)
  rw [hload] at hnew
  refine ⟨fun i h₁ h₂ h₃ => ?_, ?_, ?_, ?_⟩
  · rw [heq, Skb.data_store_of_ne e _ _ h₁ h₂]
    by_cases hlast : i = dhcpFlags skb + 1
    · -- the low byte of the flags is written again
      subst hlast
      simp [Skb.store, flagsWith_eq]
    · rw [Skb.data_store_of_ne e _ _ h₃ hlast]
  · have hand : skb.data (dhcpFlags skb) &&& 0x80 = 0 := by
      rw [and_flag_eq_zero]
      have hclear := h.2.2
      rw [Skb.be16] at hclear
      omega
    rw [heq, Skb.data_store_of_ne e _ _ (by omega) (by omega), ← toNat_or_flag _ hand]
    simp [Skb.store, flagsWith_eq]
  · have hadd := (hnew.symm.add hflags.symm).trans (addCompl_add_modEq _ _ |>.trans hold)
    rw [← Nat.mul_add] at hadd
    exact Nat.ModEq.cancel_left_of_coprime e.scale_coprime hadd
  · have hzero : skb'.be16 (udpCheck skb) = 0 ↔ skb'.load e (udpCheck skb) = 0 := by
      rw [Skb.be16_eq_load, Skb.load, Skb.load, Endian.load_eq_zero,
        ← Endian.load_eq_zero (e := .big)]
      exact ⟨fun h => BitVec.eq_of_toNat_eq h, fun h => congrArg BitVec.toNat h⟩
    rw [hzero, hload, addCompl_eq_zero _ _ (flagsWith_ne_zero e skb)]
    constructor
    · intro hmod
      exact Nat.ModEq.cancel_left_of_coprime e.scale_coprime (hflags.symm.trans (hmod.trans hold))
    · intro hmod
      exact hflags.trans ((hmod.mul_left e.scale).trans hold.symm)

theorem IsUdp.le_udpCheck (h : IsUdp skb) : 40 ≤ udpCheck skb := by
  have hihl := h.ihl
  simp only [udpCheck, udpPtr, ethHlen]
  omega

namespace FlagSet

/-- The headers in front of the UDP header, and its ports and length, are the same. -/
theorem data_of_lt (h : FlagSet skb skb') {i : ℕ} (hi : i < udpCheck skb) :
    skb'.data i = skb.data i := by
  have hlt : udpCheck skb < dhcpFlags skb := by
    simp only [udpCheck, dhcpFlags]
    omega
  exact h.same i (by omega) (by omega) (by omega)

theorem be16_of_lt (h : FlagSet skb skb') {off : ℕ} (hoff : off + 1 < udpCheck skb) :
    skb'.be16 off = skb.be16 off := by
  rw [Skb.be16, Skb.be16, h.data_of_lt (by omega), h.data_of_lt hoff]

variable (h : FlagSet skb skb') (hudp : IsUdp skb)
include h hudp

theorem ipHdrLen_eq : ipHdrLen skb' = ipHdrLen skb := by
  have hle := hudp.le_udpCheck
  rw [ipHdrLen, ipHdrLen, h.data_of_lt (by simp only [ethHlen]; omega)]

theorem udpPtr_eq : udpPtr skb' = udpPtr skb := by
  rw [udpPtr, udpPtr, h.ipHdrLen_eq hudp]

theorem udpLen_eq : udpLen skb' = udpLen skb := by
  rw [udpLen, udpLen, h.udpPtr_eq hudp]
  exact h.be16_of_lt (by simp only [udpCheck]; omega)

theorem isUdp : IsUdp skb' := by
  have hle := hudp.le_udpCheck
  refine ⟨?_, ?_, ?_, ?_⟩
  · rw [Skb.protocol, h.be16_of_lt (by omega)]
    exact hudp.protocol
  · rw [h.ipHdrLen_eq hudp]
    exact hudp.ihl
  · rw [h.data_of_lt (by simp only [ethHlen]; omega)]
    exact hudp.udp
  · rw [h.udpLen_eq hudp]
    exact hudp.udpLen

theorem udpCheck_eq : udpCheck skb' = udpCheck skb := by
  rw [udpCheck, udpCheck, h.udpPtr_eq hudp]

end FlagSet

/-! ## The sum -/

/-- What is in front of the checksum in the sum. -/
def udpHead (skb : Skb) : List Byte :=
  skb.bytes (ethHlen + 12) 8 ++ ([0, 17] ++ (skb.bytes (udpPtr skb + 4) 2 ++
    skb.bytes (udpPtr skb) 6))

/-- What is behind it. -/
def udpTail (skb : Skb) : List Byte := skb.bytes (udpPtr skb + 8) (udpLen skb - 8)

theorem length_udpHead (skb : Skb) : (udpHead skb).length = 18 := by
  simp [udpHead]

theorem sum_udpSummed (h : 8 ≤ udpLen skb) :
    Endian.big.sum (udpSummed skb) =
      Endian.big.sum (udpHead skb) + (skb.be16 (udpCheck skb) + Endian.big.sum (udpTail skb)) := by
  have hsplit : udpSummed skb =
      udpHead skb ++ (skb.bytes (udpCheck skb) 2 ++ udpTail skb) := by
    have hlen : udpLen skb = 6 + (2 + (udpLen skb - 8)) := by omega
    rw [udpSummed, hlen, Skb.bytes_add, Skb.bytes_add]
    simp only [udpHead, udpTail, udpCheck, List.append_assoc]
  rw [hsplit, Endian.sum_append (by rw [length_udpHead]; decide),
    Endian.sum_append (by rw [Skb.length_bytes]; decide)]
  congr 2
  exact Endian.toNat_load_big _ _

/-- The protocol is in the sum. -/
theorem sum_udpSummed_pos (skb : Skb) : 0 < Endian.big.sum (udpSummed skb) := by
  rw [udpSummed, Endian.sum_append (by rw [Skb.length_bytes]; decide),
    Endian.sum_append (by decide)]
  have hproto : Endian.big.sum [0, 17] = 17 := by decide
  omega

namespace FlagSet

variable (h : FlagSet skb skb') (hudp : IsUdp skb)
include h hudp

theorem udpHead_eq : udpHead skb' = udpHead skb := by
  have hle := hudp.le_udpCheck
  have hptr : udpPtr skb + 6 = udpCheck skb := rfl
  rw [udpHead, udpHead, h.udpPtr_eq hudp]
  congr 1
  · exact Skb.bytes_congr fun i _ hi => h.data_of_lt (by simp only [ethHlen] at hi; omega)
  · congr 2
    · exact Skb.bytes_congr fun i _ hi => h.data_of_lt (by omega)
    · exact Skb.bytes_congr fun i _ hi => h.data_of_lt (by omega)

/-- The flags are in the sum if the datagram is long enough. -/
theorem sum_udpTail : Endian.big.sum (udpTail skb') =
    Endian.big.sum (udpTail skb) + if 19 ≤ udpLen skb then 0x8000 else 0 := by
  have hcheck : udpCheck skb = udpPtr skb + 6 := rfl
  have hflags : dhcpFlags skb = udpPtr skb + 18 := rfl
  rw [udpTail, udpTail, h.udpPtr_eq hudp, h.udpLen_eq hudp]
  split_ifs with hlong
  · have hsplit (f : Skb) : f.bytes (udpPtr skb + 8) (udpLen skb - 8) =
        f.bytes (udpPtr skb + 8) 10 ++
          (f.data (udpPtr skb + 18) :: f.bytes (udpPtr skb + 19) (udpLen skb - 19)) := by
      have hlen : udpLen skb - 8 = 10 + (udpLen skb - 19 + 1) := by omega
      rw [hlen, Skb.bytes_add, Skb.bytes_succ f (udpPtr skb + 8 + 10)]
    have hmiddle : skb'.bytes (udpPtr skb + 8) 10 = skb.bytes (udpPtr skb + 8) 10 :=
      Skb.bytes_congr fun i hi hi' => h.same i (by omega) (by omega) (by omega)
    have hrest : skb'.bytes (udpPtr skb + 19) (udpLen skb - 19) =
        skb.bytes (udpPtr skb + 19) (udpLen skb - 19) :=
      Skb.bytes_congr fun i hi hi' => h.same i (by omega) (by omega) (by omega)
    have hfirst := Endian.sum_cons_big (skb'.data (udpPtr skb + 18)) (skb.data (udpPtr skb + 18))
      (skb.bytes (udpPtr skb + 19) (udpLen skb - 19))
    have hbyte := h.flags
    rw [hflags] at hbyte
    rw [hsplit, hsplit, hmiddle, hrest, Endian.sum_append (by rw [Skb.length_bytes]; decide),
      Endian.sum_append (by rw [Skb.length_bytes]; decide)]
    omega
  · rw [Nat.add_zero]
    congr 1
    exact Skb.bytes_congr fun i hi hi' => h.same i (by omega) (by omega) (by omega)

end FlagSet

/-! ## When a checksum stays right -/

/-- What the fields of a frame have to be for its checksum to stay right when the flag is set. -/
def KeepsSum (skb : Skb) : Prop :=
  if 19 ≤ udpLen skb then skb.be16 (dhcpFlags skb) = 0 ∧ skb.be16 (udpCheck skb) ≠ 0x8000
  else skb.be16 (dhcpFlags skb) = 0x7fff ∧ skb.be16 (udpCheck skb) ≠ 0xffff

/-- A checksum that is right stays right if and only if no flag was set before, and the new checksum
is not zero; or, in a datagram that ends in front of the flags, if the field becomes all ones. -/
theorem dhcpFlagBcast_valid_iff (e : Endian) (s : Adapter w) (h : UdpValid skb) :
    UdpValid (dhcpFlagBcast e s skb) ↔ (SetsFlag s skb → KeepsSum skb) := by
  by_cases hset : SetsFlag s skb
  · have hflag : FlagSet skb (dhcpFlagBcast e s skb) := dhcpFlagBcast_of_setsFlag hset
    obtain ⟨skb', hskb'⟩ : ∃ skb', skb' = dhcpFlagBcast e s skb := ⟨_, rfl⟩
    rw [← hskb'] at hflag ⊢
    have hudp := hflag.isUdp h.toIsUdp
    have hsum := sum_udpSummed h.udpLen
    have hsum' := sum_udpSummed hudp.udpLen
    rw [hflag.udpHead_eq h.toIsUdp, hflag.udpCheck_eq h.toIsUdp,
      hflag.sum_udpTail h.toIsUdp] at hsum'
    have hpos := sum_udpSummed_pos skb'
    obtain ⟨-, hzero⟩ := foldCarry_eq_ones.mp h.sum
    have hcheck := hflag.check
    have hpresent := h.present
    have hclear := hset.2.2
    have hlt : skb.be16 (udpCheck skb) < 65536 := by
      rw [Skb.be16_eq_load]
      exact BitVec.isLt _
    -- valid again: the field is not zero, and the sum is a multiple of the modulus
    have hiff : UdpValid skb' ↔ ¬ skb'.be16 (udpCheck skb) = 0 ∧
        Endian.big.sum (udpSummed skb') ≡ 0 [MOD 65535] := by
      constructor
      · rintro ⟨-, hp, hs⟩
        rw [hflag.udpCheck_eq h.toIsUdp] at hp
        exact ⟨hp, (foldCarry_eq_ones.mp hs).2⟩
      · rintro ⟨hp, hs⟩
        refine ⟨hudp, ?_, foldCarry_eq_ones.mpr ⟨hpos, hs⟩⟩
        rwa [hflag.udpCheck_eq h.toIsUdp]
    rw [hiff, hflag.check_eq_zero, hsum', KeepsSum, forall_prop_of_true hset]
    rw [hsum] at hzero
    rw [Nat.ModEq] at hzero hcheck
    by_cases hlong : 19 ≤ udpLen skb
    · rw [if_pos hlong, if_pos hlong, Nat.ModEq, Nat.ModEq]
      omega
    · rw [if_neg hlong, if_neg hlong, Nat.ModEq, Nat.ModEq]
      omega
  · rw [dhcpFlagBcast_of_not hset]
    exact iff_of_true h fun hset' => absurd hset' hset

/-- A checksum that is absent stays absent if and only if the field becomes all ones. -/
theorem dhcpFlagBcast_absent_iff (e : Endian) (s : Adapter w) (h : UdpAbsent skb) :
    UdpAbsent (dhcpFlagBcast e s skb) ↔
      (SetsFlag s skb → skb.be16 (dhcpFlags skb) = 0x7fff) := by
  by_cases hset : SetsFlag s skb
  · have hflag : FlagSet skb (dhcpFlagBcast e s skb) := dhcpFlagBcast_of_setsFlag hset
    obtain ⟨skb', hskb'⟩ : ∃ skb', skb' = dhcpFlagBcast e s skb := ⟨_, rfl⟩
    rw [← hskb'] at hflag ⊢
    have habsent := h.absent
    have hclear := hset.2.2
    have hiff : UdpAbsent skb' ↔ skb'.be16 (udpCheck skb) = 0 := by
      constructor
      · rintro ⟨-, hp⟩
        rwa [hflag.udpCheck_eq h.toIsUdp] at hp
      · intro hp
        refine ⟨hflag.isUdp h.toIsUdp, ?_⟩
        rwa [hflag.udpCheck_eq h.toIsUdp]
    rw [hiff, hflag.check_eq_zero, habsent, forall_prop_of_true hset, Nat.ModEq]
    omega
  · rw [dhcpFlagBcast_of_not hset]
    exact iff_of_true h fun hset' => absurd hset' hset

end Rtl88x2cu.Nat25
