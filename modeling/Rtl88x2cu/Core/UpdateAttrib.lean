import Mathlib.Algebra.Order.Ring.Nat
import Mathlib.Data.List.GetD
import Rtl88x2cu.Lib.Bytes

/-!
# Looking into IPv4 packets

`update_attrib` (`core/rtw_xmit.c`) looks into an IPv4 packet that is to be sent: whether it is an
ICMP, a DHCP or a high-priority packet, and whether the session tracker is to be told of it. It
reads the packet through a cursor, `_rtw_pktfile_read` (`os_dep/linux/xmit_linux.c`), into local
arrays. A read behind the end of the packet is short and leaves the rest of the array as it was.

* `updateAttrib` has the contents of the arrays before as a parameter, `Locals`.
* `reference` is what the transport header behind the IPv4 header, with its options, says.
* `updateAttrib_eq_reference_iff` says on which packets the two agree, whatever was in the arrays.
-/

namespace Rtl88x2cu.Core.UpdateAttrib

open Bytes

/-! ## The cursor -/

/-- `struct pkt_file` of a packet; `cur_addr` is counted from `buf_start`. -/
structure PktFile where
  pkt : List Byte
  curAddr : ℕ
  pktLen : ℕ

/-- `_rtw_open_pktfile`. -/
def rtwOpenPktfile (pkt : List Byte) : PktFile := ⟨pkt, 0, pkt.length⟩

/-- `rtw_remainder_len`. -/
def rtwRemainderLen (f : PktFile) : ℕ := f.pkt.length - f.curAddr

/-- `_rtw_pktfile_read`: the bytes that are read, and the cursor behind them. -/
def rtwPktfileRead (f : PktFile) (rlen : BitVec 32) : List Byte × PktFile :=
  let len := rtwRemainderLen f
  let len := if rlen.toNat > len then len else rlen.toNat
  (slice f.pkt (f.pkt.length - f.pktLen) len, ⟨f.pkt, f.curAddr + len, f.pktLen - len⟩)

/-- An array behind a read into it: where nothing was read there is what was there before. -/
def intoArray {n : ℕ} (mem : Vector Byte n) (bs : List Byte) : Vector Byte n :=
  Vector.ofFn fun i => bs.getD i mem[i]

/-! ## The session tracker -/

/-- A rule of the session tracker: the addresses and ports of the two ends. -/
abbrev StMatchRule := List Byte → List Byte → List Byte → List Byte → Bool

/-- `struct st_register`. -/
structure StRegister where
  sProto : Byte
  rule : Option StMatchRule

/-- `struct st_ctl_t`. -/
structure StCtl where
  reg : List StRegister

/-- `rtw_st_ctl_chk_reg_s_proto`. -/
def rtwStCtlChkRegSProto (st_ctl : StCtl) (s_proto : Byte) : Bool :=
  st_ctl.reg.any fun reg => reg.sProto == s_proto

/-- `rtw_st_ctl_chk_reg_rule`. -/
def rtwStCtlChkRegRule (st_ctl : StCtl)
    (local_naddr local_port remote_naddr remote_port : List Byte) : Bool :=
  st_ctl.reg.any fun reg =>
    reg.rule.elim false fun rule => rule local_naddr local_port remote_naddr remote_port

/-- What the session tracker is told, `session_tracker_add_cmd` and `session_tracker_del_cmd`. -/
inductive StCmd where
  | add (local_naddr local_port remote_naddr remote_port : List Byte)
  | del (local_naddr local_port remote_naddr remote_port : List Byte)
  deriving DecidableEq, Repr

/-! ## The headers -/

/-- `GET_IPV4_IHL`. -/
def getIpv4Ihl (ip : Vector Byte 20) : ℕ := ip[0].toNat % 16

/-- `GET_IPV4_PROTOCOL`. -/
def getIpv4Protocol (ip : Vector Byte 20) : Byte := ip[9]

/-- `IPV4_SRC`. -/
def ipv4Src (ip : Vector Byte 20) : List Byte := slice ip.toList 12 4

/-- `IPV4_DST`. -/
def ipv4Dst (ip : Vector Byte 20) : List Byte := slice ip.toList 16 4

/-- `GET_UDP_SRC`. -/
def getUdpSrc (udp : Vector Byte 24) : ℕ := udp[0].toNat * 256 + udp[1].toNat

/-- `GET_UDP_DST`. -/
def getUdpDst (udp : Vector Byte 24) : ℕ := udp[2].toNat * 256 + udp[3].toNat

/-- `GET_UDP_SIG1`. -/
def getUdpSig1 (udp : Vector Byte 24) : Byte := udp[8]

/-- `GET_UDP_SIG2`. -/
def getUdpSig2 (udp : Vector Byte 24) : Byte := udp[23]

/-- `TCP_SRC`. -/
def tcpSrc (tcp : Vector Byte 20) : List Byte := [tcp[0], tcp[1]]

/-- `TCP_DST`. -/
def tcpDst (tcp : Vector Byte 20) : List Byte := [tcp[2], tcp[3]]

/-- `GET_TCP_FIN`. -/
def getTcpFin (tcp : Vector Byte 20) : Bool := tcp[13].getLsbD 0

/-- `GET_TCP_SYN`. -/
def getTcpSyn (tcp : Vector Byte 20) : Bool := tcp[13].getLsbD 1

/-- `GET_TCP_ACK`. -/
def getTcpAck (tcp : Vector Byte 20) : Bool := tcp[13].getLsbD 4

/-! ## `update_attrib` -/

/-- The fields of `struct pkt_attrib` that are set here. -/
structure PktAttrib where
  etherType : ℕ
  pktlen : ℕ
  icmpPkt : Bool
  dhcpPkt : Bool
  hipriorityPkt : Bool
  deriving DecidableEq, Repr

/-- What is in the local arrays before they are read into. -/
structure Locals where
  etherhdr : Vector Byte 14
  ip : Vector Byte 20
  udp : Vector Byte 24
  tcp : Vector Byte 20

/-- `MINIMUM_DHCP_PACKET_SIZE`. -/
def minimumDhcpPacketSize : ℕ := 282

/-- The branch for UDP. -/
def udpAttrib (udp : Vector Byte 24) (attrib : PktAttrib) : PktAttrib :=
  let attrib :=
    if getUdpSrc udp = 68 ∧ getUdpDst udp = 67 ∨ getUdpSrc udp = 67 ∧ getUdpDst udp = 68 then
      if attrib.pktlen > minimumDhcpPacketSize then { attrib with dhcpPkt := true } else attrib
    else attrib
  if (getUdpSig1 udp = 0xcc ∨ getUdpSig1 udp = 0xdd) ∧ getUdpSig2 udp = 0xe2 then
    { attrib with hipriorityPkt := true }
  else attrib

/-- The branch for TCP. The remote address that is passed on is `IPV4_SRC`, as the local one. -/
def tcpCmds (st_ctl : StCtl) (ip : Vector Byte 20) (tcp : Vector Byte 20) : List StCmd :=
  if rtwStCtlChkRegRule st_ctl (ipv4Src ip) (tcpSrc tcp) (ipv4Dst ip) (tcpDst tcp) then
    (if getTcpSyn tcp && getTcpAck tcp then
      [.add (ipv4Src ip) (tcpSrc tcp) (ipv4Src ip) (tcpDst tcp)] else []) ++
    (if getTcpFin tcp then
      [.del (ipv4Src ip) (tcpSrc tcp) (ipv4Src ip) (tcpDst tcp)] else [])
  else []

/-- The case distinction; each of the two arrays is read into in its own branch only. -/
def classify (st_ctl : StCtl) (ip : Vector Byte 20) (udp : Vector Byte 24) (tcp : Vector Byte 20)
    (attrib : PktAttrib) : PktAttrib × List StCmd :=
  if getIpv4Protocol ip = 0x01 then ({ attrib with icmpPkt := true }, [])
  else if getIpv4Protocol ip = 0x11 then (udpAttrib udp attrib, [])
  else if getIpv4Protocol ip = 0x06 ∧ rtwStCtlChkRegSProto st_ctl 0x06 then
    (attrib, tcpCmds st_ctl ip tcp)
  else (attrib, [])

/-- `ETH_P_IP`. -/
def ethPIp : ℕ := 0x0800

/-- `update_attrib`, as far as it looks into an IPv4 packet. -/
def updateAttrib (st_ctl : StCtl) (locals : Locals) (pkt : List Byte) (attrib : PktAttrib) :
    PktAttrib × List StCmd :=
  let (bs, pktfile) := rtwPktfileRead (rtwOpenPktfile pkt) 14
  let etherhdr := intoArray locals.etherhdr bs
  let attrib := { attrib with
    etherType := etherhdr[12].toNat * 256 + etherhdr[13].toNat
    pktlen := pktfile.pktLen }
  if ethPIp = attrib.etherType then
    let (bs, pktfile) := rtwPktfileRead pktfile 20
    let ip := intoArray locals.ip bs
    let pktfile :=
      if getIpv4Ihl ip * 4 > 20 then
        -- the difference is negative, and `rlen` is unsigned
        (rtwPktfileRead pktfile (BitVec.ofNat 32 (getIpv4Ihl ip) - 20)).2
      else pktfile
    let attrib := { attrib with icmpPkt := false, dhcpPkt := false, hipriorityPkt := false }
    classify st_ctl ip (intoArray locals.udp (rtwPktfileRead pktfile 24).1)
      (intoArray locals.tcp (rtwPktfileRead pktfile 20).1) attrib
  else (attrib, [])

/-! ## What a packet says -/

/-- An IPv4 packet in an Ethernet frame. Its header with the options has `IHL * 4` bytes. -/
structure Ipv4Packet where
  addrs : Vector Byte 12
  hdr : Vector Byte 20
  options : List Byte
  transport : List Byte
  length_options : 20 + options.length = getIpv4Ihl hdr * 4
  length_lt : 34 + options.length + transport.length < 2 ^ 32

namespace Ipv4Packet

variable (p : Ipv4Packet)

/-- The packet. -/
def bytes : List Byte :=
  p.addrs.toList ++ [0x08, 0x00] ++ (p.hdr.toList ++ (p.options ++ p.transport))

/-- The length behind the Ethernet header. -/
def pktlen : ℕ := 20 + p.options.length + p.transport.length

end Ipv4Packet

/-- A number of 16 bits in the transport header, if it is there. -/
def port (t : List Byte) (off : ℕ) : Option ℕ := do
  let hi ← t[off]?
  let lo ← t[off + 1]?
  some (hi.toNat * 256 + lo.toNat)

/-- The commands for the transport header of a TCP packet, if it reaches up to the flags. -/
def referenceCmds (st_ctl : StCtl) (ip : Vector Byte 20) (t : List Byte) : List StCmd :=
  match t[13]? with
  | none => []
  | some flags =>
    if rtwStCtlChkRegRule st_ctl (ipv4Src ip) (slice t 0 2) (ipv4Dst ip) (slice t 2 2) then
      (if flags.getLsbD 1 && flags.getLsbD 4 then
        [.add (ipv4Src ip) (slice t 0 2) (ipv4Src ip) (slice t 2 2)] else []) ++
      (if flags.getLsbD 0 then
        [.del (ipv4Src ip) (slice t 0 2) (ipv4Src ip) (slice t 2 2)] else [])
    else []

/-- What the transport header says; bytes that are not there say nothing. -/
def reference (st_ctl : StCtl) (p : Ipv4Packet) (attrib : PktAttrib) :
    PktAttrib × List StCmd :=
  let t := p.transport
  let protocol := getIpv4Protocol p.hdr
  ({ attrib with
      etherType := ethPIp
      pktlen := p.pktlen
      icmpPkt := protocol = 0x01
      dhcpPkt := protocol = 0x11 ∧ (port t 0 = some 68 ∧ port t 2 = some 67 ∨
        port t 0 = some 67 ∧ port t 2 = some 68) ∧ minimumDhcpPacketSize < p.pktlen
      hipriorityPkt := protocol = 0x11 ∧ (t[8]? = some 0xcc ∨ t[8]? = some 0xdd) ∧
        t[23]? = some 0xe2 },
    if protocol = 0x06 ∧ rtwStCtlChkRegSProto st_ctl 0x06 then referenceCmds st_ctl p.hdr t else [])

/-! ## What is read -/

section Read

variable {n : ℕ} (mem : Vector Byte n) (pre rest bs : List Byte)

/-- The cursor between the two parts of a packet. -/
def cursor : PktFile := ⟨pre ++ rest, pre.length, rest.length⟩

theorem rtwPktfileRead_cursor (rlen : BitVec 32) :
    rtwPktfileRead (cursor pre rest) rlen =
      (rest.take rlen.toNat, cursor (pre ++ rest.take rlen.toNat) (rest.drop rlen.toNat)) := by
  have hlen : (if rlen.toNat > rest.length then rest.length else rlen.toNat) =
      min rlen.toNat rest.length := by
    split <;> omega
  have hrem : rtwRemainderLen (cursor pre rest) = rest.length := by
    simp [rtwRemainderLen, cursor]
  have hslice : slice (pre ++ rest) pre.length (min rlen.toNat rest.length) =
      rest.take rlen.toNat := by
    rw [slice, List.drop_left, List.take_eq_take_min]
    simp
  rw [rtwPktfileRead, hrem, hlen]
  simp only [cursor, List.length_append, Nat.add_sub_cancel, hslice, List.append_assoc,
    List.take_append_drop, List.length_take, List.length_drop]
  congr 2
  omega

variable {pre rest bs}

/-- Enough bytes. -/
theorem rtwPktfileRead_append {rlen : BitVec 32} (h : bs.length = rlen.toNat) :
    rtwPktfileRead (cursor pre (bs ++ rest)) rlen = (bs, cursor (pre ++ bs) rest) := by
  rw [rtwPktfileRead_cursor, ← h, List.take_left, List.drop_left]

/-- Too few bytes. -/
theorem rtwPktfileRead_all {rlen : BitVec 32} (h : rest.length ≤ rlen.toNat) :
    rtwPktfileRead (cursor pre rest) rlen = (rest, cursor (pre ++ rest) []) := by
  rw [rtwPktfileRead_cursor, List.take_of_length_le h, List.drop_of_length_le h]

@[simp]
theorem getElem_intoArray {i : ℕ} (hi : i < n) : (intoArray mem bs)[i] = bs.getD i mem[i] := by
  rw [intoArray, Vector.getElem_ofFn]
  rfl

/-- A byte that is read. -/
theorem getElem?_eq_intoArray {i : ℕ} (hi : i < n) (h : i < bs.length) :
    bs[i]? = some (intoArray mem bs)[i] := by
  rw [getElem_intoArray, List.getD_eq_getElem _ _ h, List.getElem?_eq_getElem h]

/-- The whole array is read. -/
theorem intoArray_toList (v : Vector Byte n) : intoArray mem v.toList = v := by
  apply Vector.ext
  intro i hi
  rw [getElem_intoArray, List.getD_eq_getElem _ _ (by rwa [Vector.length_toList]),
    Vector.getElem_toList]

/-- What is behind the array does not matter. -/
theorem intoArray_take : intoArray mem (bs.take n) = intoArray mem bs := by
  apply Vector.ext
  intro i hi
  rw [getElem_intoArray, getElem_intoArray, List.getD_eq_getElem?_getD, List.getD_eq_getElem?_getD,
    List.getElem?_take_of_lt hi]

end Read

/-- The bytes of the transport header that are read. Behind options the cursor is at the end of the
packet. -/
def Ipv4Packet.reached (p : Ipv4Packet) : List Byte :=
  if getIpv4Ihl p.hdr = 5 then p.transport else []

/-- What is skipped behind the IPv4 header, if there are options, is everything. -/
theorem length_le_skip (p : Ipv4Packet) :
    (p.options ++ p.transport).length ≤ (BitVec.ofNat 32 (getIpv4Ihl p.hdr) - 20).toNat := by
  have hlt := p.length_lt
  have hlen := p.length_options
  have hihl : getIpv4Ihl p.hdr < 16 := Nat.mod_lt _ (by decide)
  rw [List.length_append, BitVec.toNat_sub, BitVec.toNat_ofNat]
  change _ ≤ (2 ^ 32 - 20 + _) % 2 ^ 32
  omega

theorem rtwPktfileRead_reached (p : Ipv4Packet) (pre : List Byte) (rlen : BitVec 32) :
    (rtwPktfileRead (if getIpv4Ihl p.hdr * 4 > 20 then
        (rtwPktfileRead (cursor pre (p.options ++ p.transport))
          (BitVec.ofNat 32 (getIpv4Ihl p.hdr) - 20)).2
      else cursor pre (p.options ++ p.transport)) rlen).1 = p.reached.take rlen.toNat := by
  have hlen := p.length_options
  by_cases h : getIpv4Ihl p.hdr = 5
  · have hopt : p.options = [] := by
      rw [← List.length_eq_zero_iff]
      omega
    rw [if_neg (by omega), rtwPktfileRead_cursor, hopt, List.nil_append, Ipv4Packet.reached,
      if_pos h]
  · rw [if_pos (by omega), rtwPktfileRead_all (length_le_skip p), rtwPktfileRead_cursor,
      Ipv4Packet.reached, if_neg h]

/-- What `update_attrib` does is to look at these bytes. -/
theorem updateAttrib_bytes (st_ctl : StCtl) (locals : Locals) (p : Ipv4Packet) (attrib : PktAttrib) :
    updateAttrib st_ctl locals p.bytes attrib =
      classify st_ctl p.hdr (intoArray locals.udp p.reached) (intoArray locals.tcp p.reached)
        ⟨ethPIp, p.pktlen, false, false, false⟩ := by
  -- the Ethernet header
  have heth : rtwPktfileRead (rtwOpenPktfile p.bytes) 14 =
      (p.addrs.toList ++ [0x08, 0x00], cursor (p.addrs.toList ++ [0x08, 0x00])
        (p.hdr.toList ++ (p.options ++ p.transport))) := by
    change rtwPktfileRead (cursor [] p.bytes) 14 = _
    apply rtwPktfileRead_append
    rw [List.length_append, Vector.length_toList]
    rfl
  have htype : (intoArray locals.etherhdr (p.addrs.toList ++ [0x08, 0x00]))[12].toNat * 256 +
      (intoArray locals.etherhdr (p.addrs.toList ++ [0x08, 0x00]))[13].toNat = ethPIp := by
    rw [getElem_intoArray, getElem_intoArray, List.getD_append_right, List.getD_append_right]
    all_goals simp [ethPIp]
  have hpktlen : (cursor (p.addrs.toList ++ [0x08, 0x00])
      (p.hdr.toList ++ (p.options ++ p.transport))).pktLen = p.pktlen := by
    simp only [cursor, List.length_append, Vector.length_toList, Ipv4Packet.pktlen]
    omega
  -- the IPv4 header
  have hip : rtwPktfileRead (cursor (p.addrs.toList ++ [0x08, 0x00])
      (p.hdr.toList ++ (p.options ++ p.transport))) 20 =
      (p.hdr.toList, cursor (p.addrs.toList ++ [0x08, 0x00] ++ p.hdr.toList)
        (p.options ++ p.transport)) :=
    rtwPktfileRead_append p.hdr.length_toList
  rw [updateAttrib, heth]
  simp only [htype, hpktlen, if_true, hip, intoArray_toList, rtwPktfileRead_reached]
  have hudp : intoArray locals.udp (p.reached.take (24 : BitVec 32).toNat) =
      intoArray locals.udp p.reached := intoArray_take _
  have htcp : intoArray locals.tcp (p.reached.take (20 : BitVec 32).toNat) =
      intoArray locals.tcp p.reached := intoArray_take _
  rw [hudp, htcp]

/-! ## UDP -/

section Udp

variable {t : List Byte} {attrib : PktAttrib}

/-- Both flags at once. -/
theorem udpAttrib_eq (udp : Vector Byte 24) (hdhcp : attrib.dhcpPkt = false)
    (hhi : attrib.hipriorityPkt = false) :
    udpAttrib udp attrib = { attrib with
      dhcpPkt := (getUdpSrc udp = 68 ∧ getUdpDst udp = 67 ∨ getUdpSrc udp = 67 ∧ getUdpDst udp = 68) ∧
        minimumDhcpPacketSize < attrib.pktlen
      hipriorityPkt := (getUdpSig1 udp = 0xcc ∨ getUdpSig1 udp = 0xdd) ∧ getUdpSig2 udp = 0xe2 } := by
  obtain ⟨etherType, pktlen, icmp, dhcp, hi⟩ := attrib
  obtain rfl : dhcp = false := hdhcp
  obtain rfl : hi = false := hhi
  rw [udpAttrib]
  split_ifs <;> grind

/-- The bytes that decide are read: all up to the second signature, or a first one that is none. -/
def UdpRead (t : List Byte) : Prop := 24 ≤ t.length ∨ ∃ s ∈ t[8]?, s ≠ 0xcc ∧ s ≠ 0xdd

theorem UdpRead.udpAttrib_eq (h : UdpRead t) (mem : Vector Byte 24) (etherType pktlen : ℕ)
    (hlen : pktlen = 20 + t.length) :
    udpAttrib (intoArray mem t) ⟨etherType, pktlen, false, false, false⟩ =
      ⟨etherType, pktlen, false, (port t 0 = some 68 ∧ port t 2 = some 67 ∨
        port t 0 = some 67 ∧ port t 2 = some 68) ∧ minimumDhcpPacketSize < pktlen,
        (t[8]? = some 0xcc ∨ t[8]? = some 0xdd) ∧ t[23]? = some 0xe2⟩ := by
  rw [Rtl88x2cu.Core.UpdateAttrib.udpAttrib_eq _ rfl rfl]
  by_cases h24 : 24 ≤ t.length
  · have hget : ∀ i (hi : i < 24), t[i]? = some (intoArray mem t)[i] := fun i hi =>
      getElem?_eq_intoArray mem hi (by omega)
    simp only [port, hget, Option.bind_eq_bind, Option.bind_some, Option.some.injEq, getUdpSrc,
      getUdpDst, getUdpSig1, getUdpSig2, Nat.reduceAdd, Nat.reduceLT]
    congr
  · obtain ⟨s, hs, hcc, hdd⟩ := h.resolve_left h24
    -- the packet is too short for DHCP
    have hshort : ¬minimumDhcpPacketSize < pktlen := by
      rw [minimumDhcpPacketSize]
      omega
    have hsig1 : getUdpSig1 (intoArray mem t) = s := by
      rw [getUdpSig1, getElem_intoArray, List.getD_eq_getElem?_getD, hs, Option.getD_some]
    have hno : ¬(s = 0xcc ∨ s = 0xdd) := not_or.mpr ⟨hcc, hdd⟩
    rw [hsig1, hs]
    simp only [Option.some.injEq, hno, hshort, and_false, false_and]

/-- Otherwise what was in the array decides. -/
theorem not_udpRead (attrib : PktAttrib) (h : ¬UdpRead t) (hdhcp : attrib.dhcpPkt = false)
    (hhi : attrib.hipriorityPkt = false) (b : Bool) :
    ∃ mem, (udpAttrib (intoArray mem t) attrib).hipriorityPkt = b := by
  rw [UdpRead, not_or, Nat.not_le] at h
  obtain ⟨hlen, hsig⟩ := h
  let mem : Vector Byte 24 := (Vector.replicate 24 (if b then 0xe2 else 0)).set 8 0xcc
  have hsig1 : getUdpSig1 (intoArray mem t) = 0xcc ∨ getUdpSig1 (intoArray mem t) = 0xdd := by
    rw [getUdpSig1, getElem_intoArray, List.getD_eq_getElem?_getD]
    rcases hs : t[8]? with _ | s
    · exact .inl rfl
    · by_contra hno
      exact hsig ⟨s, hs, not_or.mp hno⟩
  have hsig2 : getUdpSig2 (intoArray mem t) = if b then 0xe2 else 0 := by
    rw [getUdpSig2, getElem_intoArray, List.getD_eq_default _ _ (by omega)]
    rfl
  refine ⟨mem, ?_⟩
  rw [Rtl88x2cu.Core.UpdateAttrib.udpAttrib_eq _ hdhcp hhi, hsig2]
  simp only [hsig1, true_and]
  cases b <;> rfl

end Udp

/-! ## TCP -/

section Tcp

variable {st_ctl : StCtl} {ip : Vector Byte 20} {t got : List Byte}

/-- A registered rule takes the packet, if these are the bytes of its ports. -/
def Taken (st_ctl : StCtl) (ip : Vector Byte 20) (ports : Fin 4 → Byte) : Prop :=
  rtwStCtlChkRegRule st_ctl (ipv4Src ip) [ports 0, ports 1] (ipv4Dst ip) [ports 2, ports 3] = true

/-- The bytes that decide are read: all up to the flags, or enough of the ports to see that no rule
takes the packet. -/
def TcpRead (st_ctl : StCtl) (ip : Vector Byte 20) (t : List Byte) : Prop :=
  14 ≤ t.length ∨
    ∀ ports : Fin 4 → Byte, (∀ i : Fin 4, ∀ b ∈ t[i.val]?, ports i = b) → ¬Taken st_ctl ip ports

theorem slice_two {i : ℕ} (h : i + 1 < t.length) : slice t i 2 = [t[i], t[i + 1]] := by
  rw [slice, List.drop_eq_getElem_cons (by omega), List.drop_eq_getElem_cons h]
  rfl

/-- The bytes of the ports. -/
def portBytes (tcp : Vector Byte 20) : Fin 4 → Byte := fun i => tcp[i.val]

/-- No rule takes the packet. -/
theorem tcpCmds_of_not_taken {tcp : Vector Byte 20} (h : ¬Taken st_ctl ip (portBytes tcp)) :
    tcpCmds st_ctl ip tcp = [] :=
  if_neg h

theorem tcpCmds_of_taken {tcp : Vector Byte 20} (h : Taken st_ctl ip (portBytes tcp)) :
    tcpCmds st_ctl ip tcp =
      (if tcp[13].getLsbD 1 && tcp[13].getLsbD 4 then
        [.add (ipv4Src ip) (tcpSrc tcp) (ipv4Src ip) (tcpDst tcp)] else []) ++
      (if tcp[13].getLsbD 0 then
        [.del (ipv4Src ip) (tcpSrc tcp) (ipv4Src ip) (tcpDst tcp)] else []) :=
  if_pos h

theorem TcpRead.tcpCmds_eq (h : TcpRead st_ctl ip got) (hgot : got = t ∨ got = [])
    (mem : Vector Byte 20) : tcpCmds st_ctl ip (intoArray mem got) = referenceCmds st_ctl ip t := by
  by_cases h14 : 14 ≤ got.length
  · obtain rfl : got = t := hgot.resolve_right (by rintro rfl; contradiction)
    have hget : ∀ i (hi : i < 20) (h : i < got.length), got[i] = (intoArray mem got)[i] := by
      intro i hi h
      apply Option.some.inj
      rw [← getElem?_eq_intoArray mem hi h, List.getElem?_eq_getElem h]
    have hflags : got[13]? = some (intoArray mem got)[13] := getElem?_eq_intoArray mem _ (by omega)
    rw [referenceCmds, hflags, slice_two (by omega), slice_two (by omega), hget 0 (by decide),
      hget 1 (by decide), hget 2 (by decide), hget 3 (by decide)]
    rfl
  · have hno := h.resolve_left h14
    rw [tcpCmds_of_not_taken]
    · rcases ht : t[13]? with _ | flags
      · rw [referenceCmds, ht]
      · -- then nothing is read, and no rule takes any ports
        have hlen : 13 < t.length := (List.getElem?_eq_some_iff.mp ht).1
        obtain rfl : got = [] := hgot.resolve_left (by rintro rfl; omega)
        rw [referenceCmds, ht, slice_two (by omega), slice_two (by omega)]
        exact (if_neg (hno (fun i => t[i.val]) nofun)).symm
    · apply hno
      intro i b hb
      rw [portBytes, getElem_intoArray, List.getD_eq_getElem?_getD, hb, Option.getD_some]

/-- Otherwise what was in the array decides. -/
theorem not_tcpRead (h : ¬TcpRead st_ctl ip t) :
    (∃ mem, tcpCmds st_ctl ip (intoArray mem t) = []) ∧
      ∃ mem, tcpCmds st_ctl ip (intoArray mem t) ≠ [] := by
  rw [TcpRead, not_or, Nat.not_le] at h
  obtain ⟨hlen, hports⟩ := h
  push Not at hports
  obtain ⟨ports, hread, htaken⟩ := hports
  -- the ports are taken, and the flags are not read
  have hmem : ∀ flags, ∃ mem : Vector Byte 20,
      portBytes (intoArray mem t) = ports ∧ (intoArray mem t)[13] = flags := by
    intro flags
    refine ⟨Vector.ofFn fun i => if h : i.val < 4 then ports ⟨i, h⟩ else flags, ?_, ?_⟩
    · funext i
      rw [portBytes, getElem_intoArray, List.getD_eq_getElem?_getD, Vector.getElem_ofFn,
        dif_pos i.isLt]
      rcases hb : t[i.val]? with _ | b
      · rfl
      · exact (hread i b hb).symm
    · rw [getElem_intoArray, List.getD_eq_default _ _ (by omega), Vector.getElem_ofFn]
      rfl
  constructor
  · obtain ⟨mem, rfl, hflags⟩ := hmem 0
    refine ⟨mem, ?_⟩
    rw [tcpCmds_of_taken htaken, hflags]
    rfl
  · obtain ⟨mem, rfl, hflags⟩ := hmem 0x12
    refine ⟨mem, ?_⟩
    rw [tcpCmds_of_taken htaken, hflags]
    exact List.cons_ne_nil _ _

end Tcp

/-! ## The packets that are looked into rightly -/

section Main

/-- The bytes of the transport header that decide are among those that are read. -/
def DecidingBytesRead (st_ctl : StCtl) (p : Ipv4Packet) : Prop :=
  (getIpv4Protocol p.hdr = 0x11 → UdpRead p.reached) ∧
    (getIpv4Protocol p.hdr = 0x06 → rtwStCtlChkRegSProto st_ctl 0x06 →
      TcpRead st_ctl p.hdr p.reached)

theorem reached_cases (p : Ipv4Packet) :
    p.reached = p.transport ∧ p.pktlen = 20 + p.transport.length ∨ p.reached = [] := by
  have hlen := p.length_options
  rw [Ipv4Packet.reached, Ipv4Packet.pktlen]
  split
  · left
    constructor
    · rfl
    · omega
  · exact .inr rfl

/-- Whatever is in the arrays, `update_attrib` finds what the transport header says: this holds of
exactly the packets of which the bytes that decide are read. -/
theorem updateAttrib_eq_reference_iff (st_ctl : StCtl) (p : Ipv4Packet) (attrib : PktAttrib) :
    (∀ locals, updateAttrib st_ctl locals p.bytes attrib = reference st_ctl p attrib) ↔
      DecidingBytesRead st_ctl p := by
  simp only [updateAttrib_bytes]
  constructor
  · intro h
    let any : Locals := ⟨.replicate 14 0, .replicate 20 0, .replicate 24 0, .replicate 20 0⟩
    constructor
    · intro hproto
      by_contra hread
      -- the array may say the opposite
      obtain ⟨mem, hmem⟩ := not_udpRead ⟨ethPIp, p.pktlen, false, false, false⟩ hread rfl rfl
        (!(reference st_ctl p attrib).1.hipriorityPkt)
      have heq := h { any with udp := mem }
      rw [classify, if_neg (by rw [hproto]; decide), if_pos hproto] at heq
      rw [← heq] at hmem
      exact (Bool.not_eq_self _).mp hmem.symm
    · intro hproto hreg
      by_contra hread
      have heq : ∀ mem, tcpCmds st_ctl p.hdr (intoArray mem p.reached) =
          (reference st_ctl p attrib).2 := by
        intro mem
        have heq := h { any with tcp := mem }
        rw [classify, if_neg (by rw [hproto]; decide), if_neg (by rw [hproto]; decide),
          if_pos ⟨hproto, hreg⟩] at heq
        exact congrArg Prod.snd heq
      obtain ⟨⟨mem₁, h₁⟩, mem₂, h₂⟩ := not_tcpRead hread
      rw [heq] at h₁ h₂
      exact h₂ h₁
  · rintro ⟨hudp, htcp⟩ locals
    rw [classify]
    by_cases h01 : getIpv4Protocol p.hdr = 0x01
    · have h11 : getIpv4Protocol p.hdr ≠ 0x11 := by rw [h01]; decide
      have h06 : getIpv4Protocol p.hdr ≠ 0x06 := by rw [h01]; decide
      simp only [reference, eq_true h01, h11, h06, false_and, if_true, if_false, decide_true,
        decide_false]
    · by_cases h11 : getIpv4Protocol p.hdr = 0x11
      · have h06 : getIpv4Protocol p.hdr ≠ 0x06 := by rw [h11]; decide
        have hread := hudp h11
        rcases reached_cases p with ⟨hreached, hpktlen⟩ | hreached
        · rw [hreached] at hread ⊢
          rw [if_neg h01, if_pos h11, hread.udpAttrib_eq _ _ _ hpktlen]
          simp only [reference, h01, eq_true h11, h06, false_and, true_and, if_false, decide_false]
        · rw [hreached] at hread
          simp [UdpRead] at hread
      · rw [if_neg h01, if_neg h11]
        by_cases h06 : getIpv4Protocol p.hdr = 0x06 ∧ rtwStCtlChkRegSProto st_ctl 0x06
        · have hgot : p.reached = p.transport ∨ p.reached = [] :=
            (reached_cases p).imp_left And.left
          rw [if_pos h06, (htcp h06.1 h06.2).tcpCmds_eq hgot]
          simp only [reference, h01, h11, eq_true h06, false_and, if_true, decide_false]
        · simp only [reference, h01, h11, h06, false_and, if_false, decide_false]

/-- A packet with an option of four bytes in the IPv4 header and the two signatures in what follows
it. -/
def waveAgent : Ipv4Packet where
  addrs := .replicate 12 0
  hdr := #v[0x46, 0, 0, 48, 0, 0, 0, 0, 64, 0x11, 0, 0, 10, 0, 0, 1, 10, 0, 0, 2]
  options := [1, 1, 1, 0]
  transport := [0, 1, 0, 2, 0, 24, 0, 0, 0xcc, 0, 0, 0, 0, 0, 0, 0, 0, 0, 0, 0, 0, 0, 0, 0xe2]
  length_options := by decide
  length_lt := by decide

/-- It is not taken for a high-priority packet, with zeros in the arrays. -/
theorem waveAgent_not_hipriority :
    ¬∀ st_ctl locals p attrib, updateAttrib st_ctl locals p.bytes attrib =
      reference st_ctl p attrib := by
  intro h
  have heq := h ⟨[]⟩ ⟨.replicate 14 0, .replicate 20 0, .replicate 24 0, .replicate 20 0⟩ waveAgent
    ⟨0, 0, false, false, false⟩
  revert heq
  decide

end Main

end Rtl88x2cu.Core.UpdateAttrib
