import Rtl88x2cu.Nat25.NdLinkLayer

/-!
# Checksums of rewritten frames

Two functions of the bridge extension (`core/rtw_br_ext.c`) change what the checksum of a frame is
over: `dhcp_flag_bcast`, and `nat25_db_handle` when it inserts a neighbour discovery message. The
first updates the checksum, and the second computes it again. `checksumsKept_iff` says for which
frames the checksum stays right.
-/

namespace Rtl88x2cu.Nat25

open Bytes (Byte)
open OnesComplement

variable {w : ℕ} {e : Endian} (c : Csum e) (clk : Clock w) (pl : Payload) (env : Env w)
  (s : Adapter w) (skb : Skb)

/-- A frame with a right checksum, or a UDP datagram without one, is still such a frame when it is
rewritten. -/
structure ChecksumsKept : Prop where
  udpValid : UdpValid skb → UdpValid (dhcpFlagBcast e s skb)
  udpAbsent : UdpAbsent skb → UdpAbsent (dhcpFlagBcast e s skb)
  icmpv6Valid : Icmpv6Valid skb →
    Icmpv6Valid (nat25DbHandle clk { pl with updateNd := updateNd c } .insert env skb s).skb

/-- When the broadcast flag is set, the old flags must be zero, or must become all ones in a
datagram that ends in front of them or that has no checksum. When the address in a neighbour
discovery message is replaced, the length of the message must add the same to the sum when the host
loads it. -/
theorem checksumsKept_iff :
    ChecksumsKept c clk pl env s skb ↔
      (UdpValid skb → SetsFlag s skb → KeepsSum skb) ∧
      (UdpAbsent skb → SetsFlag s skb → skb.be16 (dhcpFlags skb) = 0x7fff) ∧
      (Icmpv6Valid skb → ∀ addr, ndAddr skb = some addr →
        SumsAgree e (skb.setMac addr s.macAddr)) := by
  constructor
  · intro h
    refine ⟨fun hv => ?_, fun ha => ?_, fun hv => ?_⟩
    · exact (dhcpFlagBcast_valid_iff e s hv).mp (h.udpValid hv)
    · exact (dhcpFlagBcast_absent_iff e s ha).mp (h.udpAbsent ha)
    · exact (insert_icmpv6Valid_iff c hv).mp (h.icmpv6Valid hv)
  · rintro ⟨hvalid, habsent, hicmp⟩
    refine ⟨fun hv => ?_, fun ha => ?_, fun hv => ?_⟩
    · exact (dhcpFlagBcast_valid_iff e s hv).mpr (hvalid hv)
    · exact (dhcpFlagBcast_absent_iff e s ha).mpr (habsent ha)
    · exact (insert_icmpv6Valid_iff c hv).mpr (hicmp hv)

/-! ## A request without a checksum -/

/-- The functions of the kernel, on numbers without a bound. -/
def netCsum (e : Endian) : Csum e where
  csumPartial buff sum := sum + e.sum buff
  csumPartial_modEq _ _ := rfl
  csumIpv6Magic saddr daddr len proto csum :=
    ~~~ BitVec.ofNat 16 (foldCarry (e.sum (pseudoHeader saddr daddr len proto) + csum))
  csumIpv6Magic_modEq saddr daddr len proto csum := by
    have hlt := foldCarry_lt (e.sum (pseudoHeader saddr daddr len proto) + csum)
    have hmod := foldCarry_modEq (e.sum (pseudoHeader saddr daddr len proto) + csum)
    rw [BitVec.toNat_not, BitVec.toNat_ofNat, Nat.mod_eq_of_lt hlt]
    rw [Nat.ModEq] at hmod ⊢
    omega

/-- A DHCP request of the host 2, without flags and without a checksum. -/
def dhcpRequest : Skb :=
  { data := fun i =>
      if i < 46 then
        [0xff, 0xff, 0xff, 0xff, 0xff, 0xff, 2, 0, 0, 0, 0, 2, 8, 0, 0x45, 0, 0x01, 0x48, 0, 0, 0,
          0,
          64, 17, 0, 0, 0, 0, 0, 0, 0xff, 0xff, 0xff, 0xff, 0, 68, 0, 67, 0x01, 0x34, 0, 0, 1, 1, 6,
          0].getD i 0
      else if 278 ≤ i then [0x63, 0x82, 0x53, 0x63].getD (i - 278) 0
      else 0
    len := 342 }

theorem dhcpRequest_absent : UdpAbsent dhcpRequest :=
  ⟨⟨by decide, by decide, by decide, by decide⟩, by decide⟩

/-- Its checksum is present after the flag has been set. -/
theorem dhcpRequest_not_kept :
    ¬ ChecksumsKept (netCsum .little) clock100 samePayload
      { bridgedSys none with jiffies := 0 } bridgedAdapter dhcpRequest := by
  intro h
  have hset : SetsFlag bridgedAdapter dhcpRequest := ⟨rfl, by decide, by decide⟩
  have hflags := (dhcpFlagBcast_absent_iff _ _ dhcpRequest_absent).mp
    (h.udpAbsent dhcpRequest_absent) hset
  exact absurd hflags (by decide)

end Rtl88x2cu.Nat25
