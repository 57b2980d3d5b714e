import Rtl88x2cu.Nat25.Db

/-!
# The handler of frames

`nat25_db_handle` (`core/rtw_br_ext.c`): the frames of a protocol are checked, their source is
inserted in the NAT2.5 database, or their destination is looked up in it. `insertKey` and
`lookupKey` are the network addresses that are inserted and looked up.

What is done to payloads that the database does not depend on is a parameter: the relay tags of the
discovery phase of PPPoE, and the link-layer addresses in neighbour discovery messages.
-/

namespace Rtl88x2cu.Nat25

open Bytes (Byte)

/-- `enum NAT25_METHOD`. -/
inductive Method where
  | check
  | insert
  | lookup
  deriving DecidableEq, Repr

/-- What a call finds in the system: the memory `rtw_malloc` returns, whether the interface is a
port of a bridge, and the address of the bridge device. -/
structure Sys where
  mem : Option Addr
  brPort : Bool
  bridge : Option EthAddr
  deriving DecidableEq, Repr

/-- The system at a time. -/
structure Env (w : ℕ) extends Sys where
  jiffies : BitVec w

/-- The rewriting of payloads. -/
structure Payload where
  /-- Put a relay tag in a PADI or a PADR; `none` for the failures, all of which return -1. -/
  addRelayTag : Skb → Option Skb
  /-- Take the relay tag out of a PADO or a PADS, and set the destination address from it. -/
  takeRelayTag : Skb → Option Skb
  /-- `update_nd_link_layer_addr`, and the checksum. -/
  updateNd : EthAddr → Skb → Skb

/-- What a call returns: the return value, the frame and the adapter. -/
structure Res (w : ℕ) where
  ret : ℤ
  skb : Skb
  adapter : Adapter w

variable {w : ℕ} (clk : Clock w) (pl : Payload) (method : Method) (env : Env w) (skb : Skb)
  (s : Adapter w)

/-- `__nat25_db_network_lookup_and_replace` on the database of the adapter. -/
def lookupAndReplace (networkAddr : NetworkAddr) : Bool × Skb × Adapter w :=
  let (found, skb, db) := s.db.lookupAndReplace clk env.jiffies skb networkAddr
  (found, skb, { s with db := db })

/-- `__nat25_db_network_insert` on the database of the adapter. The MAC address is the source of the
frame. -/
def networkInsert (networkAddr : NetworkAddr) : Adapter w :=
  { s with db := s.db.insert env.jiffies env.mem skb.sa networkAddr }

/-- `netdev_br_init`. -/
def netdevBrInit : Adapter w :=
  let s :=
    if env.brPort then
      match env.bridge with
      | none => s
      | some dev => { s with brMac := dev }
    else s
  { s with ethBrExtInfo := { s.ethBrExtInfo with addPPPoETag := true } }

/-! ## The protocols -/

/-- What a frame is handled as. The offsets are those of the headers. -/
inductive Packet where
  | ip
  | arp
  | ipx (off : ℕ)
  | aarp (off : ℕ)
  | ddp (off : ℕ)
  | pppoe
  /-- EAP, and the proprietary frames of C-Media. -/
  | passed
  | ipv6
  | unknown
  deriving DecidableEq, Repr

/-- The header of an IPX or AppleTalk frame. -/
def applePacket : Packet :=
  let framePtr := ethHlen
  if skb.protocol = ethPIpx then .ipx framePtr
  else if skb.bytes framePtr 2 = [0xFF, 0xFF] then .ipx framePtr
  else if skb.data framePtr = 0xAA then
    -- behind the 802.2 header, the SNAP header
    let snap := skb.bytes (framePtr + 3) 5
    if snap = [0x00, 0x00, 0x00, 0x81, 0x37] then .ipx (framePtr + 3 + 5)
    else if snap = [0x00, 0x00, 0x00, 0x80, 0xF3] then .aarp (framePtr + 3 + 5)
    else if snap = [0x08, 0x00, 0x07, 0x80, 0x9B] then .ddp (framePtr + 3 + 5)
    else .unknown
  else if skb.data framePtr = 0xE0 then
    if skb.bytes (framePtr + 3) 2 = [0xFF, 0xFF] then .ipx (framePtr + 3) else .unknown
  else .unknown

/-- The protocol of a frame. -/
def packet : Packet :=
  if skb.protocol = ethPIp then .ip
  else if skb.protocol = ethPArp then .arp
  else if skb.protocol = ethPIpx ∨ skb.protocol = ethPAtalk ∨ skb.protocol = ethPAarp then
    applePacket skb
  else if skb.protocol = ethPPppDisc ∨ skb.protocol = ethPPppSes then .pppoe
  else if skb.protocol = 0x888e ∨ skb.protocol = 0xe2ae ∨ skb.protocol = 0xe2af then .passed
  else if skb.protocol = ethPIpv6 then .ipv6
  else .unknown

theorem applePacket_ne_ip : applePacket skb ≠ .ip := by
  dsimp only [applePacket]
  split_ifs <;> exact nofun

theorem packet_eq_ip : packet skb = .ip ↔ skb.protocol = ethPIp := by
  unfold packet
  by_cases hip : skb.protocol = ethPIp
  · simp [hip]
  · rw [if_neg hip]
    refine iff_of_false ?_ hip
    split_ifs <;> simp [applePacket_ne_ip]

/-- `ff:ff:ff:ff:ff:ff`. -/
def broadcastMac : EthAddr :=
  { o0 := 0xff, o1 := 0xff, o2 := 0xff, o3 := 0xff, o4 := 0xff, o5 := 0xff }

/-- `iph->ihl << 2`. -/
def ipHdrLen : ℕ := (skb.data ethHlen).toNat % 16 * 4

/-- `iph->saddr`. -/
def ipSaddr : Ip := skb.ip (ethHlen + 12)

/-- `iph->daddr`. -/
def ipDaddr : Ip := skb.ip (ethHlen + 16)

/-- A received IP frame to an address that is not in the database. -/
def ipUnknown (daddr : Ip) : Res w :=
  if daddr 3 = 0xff then
    -- L2 is unicast but L3 is broadcast
    { ret := 0, skb := skb.setMac 0 broadcastMac, adapter := s }
  else
    -- forwarded to upper TCP/IP
    let s := if s.brMac = zeroMac then netdevBrInit env s else s
    { ret := 0, skb := skb.setMac 0 s.brMac, adapter := s }

/-- IP frames. -/
def handleIp : Res w :=
  -- malformed
  if skb.len ≤ ipHdrLen skb then
    { ret := -1, skb := skb, adapter := s }
  else
    match method with
    | .check => { ret := -1, skb := skb, adapter := s }
    | .insert =>
      if ipSaddr skb = zeroIp then
        { ret := 0, skb := skb, adapter := s }
      else
        { ret := 0, skb := skb, adapter := networkInsert env skb s (ipv4NetworkAddr (ipSaddr skb)) }
    | .lookup =>
      let daddr := ipDaddr skb
      let (found, skb, s) := lookupAndReplace clk env skb s (ipv4NetworkAddr daddr)
      if !found then ipUnknown env skb s daddr else { ret := 0, skb := skb, adapter := s }

/-- `arp + 1`. -/
def arpPtr : ℕ := ethHlen + 8

/-- `arp->ar_hln`. -/
def arHln : ℕ := (skb.data (ethHlen + 4)).toNat

/-- `arp->ar_pln`. -/
def arPln : ℕ := (skb.data (ethHlen + 5)).toNat

/-- The sender of an ARP frame, in which the address of the adapter has been put. -/
def arpSender : Ip := (skb.setMac arpPtr s.macAddr).ip (arpPtr + arHln skb)

/-- The target of an ARP frame. -/
def arpTarget : Ip := skb.ip (arpPtr + arHln skb + (arHln skb + arPln skb))

/-- ARP frames. -/
def handleArp : Res w :=
  if skb.be16 (ethHlen + 2) ≠ ethPIp then
    { ret := -1, skb := skb, adapter := s }
  else
    match method with
    | .check => { ret := 0, skb := skb, adapter := s }
    | .insert =>
      { ret := 0
        skb := skb.setMac arpPtr s.macAddr
        adapter := networkInsert env skb s (ipv4NetworkAddr (arpSender skb s)) }
    | .lookup =>
      let (_, skb', s) := lookupAndReplace clk env skb s (ipv4NetworkAddr (arpTarget skb))
      -- the target address is the result of the lookup
      { ret := 0
        skb := skb'.setMac (arpPtr + (arHln skb + arPln skb)) skb'.da
        adapter := s }

/-- IPX frames, the header at the offset `ipx`. -/
def handleIpx (ipx : ℕ) : Res w :=
  match method with
  | .check =>
    if skb.sa = skb.mac (ipx + 22) then
      { ret := 0, skb := skb, adapter := s }
    else
      { ret := -1, skb := skb, adapter := s }
  | .insert =>
    if skb.sa = skb.mac (ipx + 22) then
      { ret := 0
        skb := skb.setMac (ipx + 22) s.macAddr
        adapter := networkInsert env skb s
          (ipxNetworkAddrWithSocket (skb.bytes (ipx + 18) 4) (skb.bytes (ipx + 28) 2)) }
    else
      { ret := 0
        skb := skb
        adapter := networkInsert env skb s
          (ipxNetworkAddrWithNode (skb.bytes (ipx + 18) 4) (skb.bytes (ipx + 22) 6)) }
  | .lookup =>
    if s.macAddr = skb.mac (ipx + 10) then
      let (_, skb, s) := lookupAndReplace clk env skb s
        (ipxNetworkAddrWithSocket (skb.bytes (ipx + 6) 4) (skb.bytes (ipx + 16) 2))
      { ret := 0, skb := skb.setMac (ipx + 10) skb.da, adapter := s }
    else
      let (_, skb, s) := lookupAndReplace clk env skb s
        (ipxNetworkAddrWithNode (skb.bytes (ipx + 6) 4) (skb.bytes (ipx + 10) 6))
      { ret := 0, skb := skb, adapter := s }

/-- `ea->hw_len != ETH_ALEN || ea->pa_len != AARP_PA_ALEN`. -/
def aarpInsane (ea : ℕ) : Bool := skb.data (ea + 4) ≠ 6 || skb.data (ea + 5) ≠ 4

/-- AARP frames, the header at the offset `ea`. -/
def handleAarp (ea : ℕ) : Res w :=
  if aarpInsane skb ea then
    { ret := -1, skb := skb, adapter := s }
  else
    match method with
    | .check => { ret := 0, skb := skb, adapter := s }
    | .insert =>
      { ret := 0
        skb := skb.setMac (ea + 8) s.macAddr
        adapter := networkInsert env skb s
          (appleNetworkAddr (skb.bytes (ea + 15) 2) (skb.bytes (ea + 17) 1)) }
    | .lookup =>
      let (_, skb, s) := lookupAndReplace clk env skb s
        (appleNetworkAddr (skb.bytes (ea + 25) 2) (skb.bytes (ea + 27) 1))
      { ret := 0, skb := skb.setMac (ea + 18) skb.da, adapter := s }

/-- DDP frames, the header at the offset `ddp`. -/
def handleDdp (ddp : ℕ) : Res w :=
  match method with
  | .check => { ret := -1, skb := skb, adapter := s }
  | .insert =>
    { ret := 0
      skb := skb
      adapter := networkInsert env skb s
        (appleNetworkAddr (skb.bytes (ddp + 6) 2) (skb.bytes (ddp + 9) 1)) }
  | .lookup =>
    let (_, skb, s) := lookupAndReplace clk env skb s
      (appleNetworkAddr (skb.bytes (ddp + 4) 2) (skb.bytes (ddp + 8) 1))
    { ret := 0, skb := skb, adapter := s }

/-- `ph->code`. -/
def pppoeCode : Byte := skb.data (ethHlen + 1)

/-- `ph->sid`. -/
def pppoeSid : List Byte := skb.bytes (ethHlen + 2) 2

/-- PADI or PADR. -/
def isPadiPadr : Bool := pppoeCode skb = 0x09 || pppoeCode skb = 0x19

/-- PADO or PADS. -/
def isPadoPads : Bool := pppoeCode skb = 0x07 || pppoeCode skb = 0x65

/-- `WAIT_TIME_PPPOE`. -/
def waitTimePppoe : ℕ := 5

/-- PPPoE frames. -/
def handlePppoe : Res w :=
  match method with
  | .check =>
    { ret := if pppoeSid skb = [0, 0] then 0 else 1, skb := skb, adapter := s }
  | .insert =>
    if pppoeSid skb = [0, 0] then
      if isPadiPadr skb then
        if s.ethBrExtInfo.addPPPoETag then
          match pl.addRelayTag skb with
          | none => { ret := -1, skb := skb, adapter := s }
          | some skb => { ret := 0, skb := skb, adapter := s }
        else if s.pppoeConnectionInProgress ≠ 0 ∧ skb.sa ≠ s.pppoeAddr then
          -- another connection is in progress
          { ret := -2, skb := skb, adapter := s }
        else
          { ret := 0
            skb := skb
            adapter := { s with
              pppoeAddr := if s.pppoeConnectionInProgress = 0 then skb.sa else s.pppoeAddr
              pppoeConnectionInProgress := waitTimePppoe } }
      else
        { ret := -1, skb := skb, adapter := s }
    else
      let s := networkInsert env skb s (pppoeNetworkAddr (skb.bytes 0 6) (pppoeSid skb))
      if !s.ethBrExtInfo.addPPPoETag ∧ s.pppoeConnectionInProgress ≠ 0 ∧ skb.sa = s.pppoeAddr then
        { ret := 0, skb := skb, adapter := { s with pppoeConnectionInProgress := 0 } }
      else
        { ret := 0, skb := skb, adapter := s }
  | .lookup =>
    if isPadoPads skb then
      if s.ethBrExtInfo.addPPPoETag then
        match pl.takeRelayTag skb with
        | none => { ret := -1, skb := skb, adapter := s }
        | some skb => { ret := 0, skb := skb, adapter := s }
      else if s.pppoeConnectionInProgress = 0 then
        { ret := -1, skb := skb, adapter := s }
      else
        { ret := 0
          skb := skb.setMac 0 s.pppoeAddr
          adapter := { s with pppoeConnectionInProgress := waitTimePppoe } }
    else if pppoeSid skb = [0, 0] then
      { ret := -1, skb := skb, adapter := s }
    else
      let (_, skb, s) := lookupAndReplace clk env skb s
        (pppoeNetworkAddr (skb.bytes 6 6) (pppoeSid skb))
      { ret := 0, skb := skb, adapter := s }

/-- `sizeof(*iph) >= (skb->len - ETH_HLEN)`, in unsigned arithmetic. -/
def ipv6Malformed : Bool := (skb.len + (2 ^ 32 - ethHlen)) % 2 ^ 32 ≤ 40

/-- `iph->saddr`. -/
def ipv6Saddr : List Byte := skb.bytes (ethHlen + 8) 16

/-- `iph->daddr`. -/
def ipv6Daddr : List Byte := skb.bytes (ethHlen + 24) 16

/-- `IPPROTO_ICMPV6`, with a message of more than four bytes. -/
def isIcmpv6 : Bool := skb.data (ethHlen + 6) = 58 && ethHlen + 40 + 4 < skb.len

/-- IPv6 frames. -/
def handleIpv6 : Res w :=
  if ipv6Malformed skb then
    { ret := -1, skb := skb, adapter := s }
  else
    match method with
    | .check => { ret := if skb.da.isMcast then 0 else -1, skb := skb, adapter := s }
    | .insert =>
      if ipv6Saddr skb = zeroIpv6 then
        { ret := 0, skb := skb, adapter := s }
      else
        { ret := 0
          skb := if isIcmpv6 skb then pl.updateNd s.macAddr skb else skb
          adapter := networkInsert env skb s (ipv6NetworkAddr (ipv6Saddr skb)) }
    | .lookup =>
      let (_, skb, s) := lookupAndReplace clk env skb s (ipv6NetworkAddr (ipv6Daddr skb))
      { ret := 0, skb := skb, adapter := s }

/-- `nat25_db_handle`. -/
def nat25DbHandle : Res w :=
  match packet skb with
  | .ip => handleIp clk method env skb s
  | .arp => handleArp clk method env skb s
  | .ipx off => handleIpx clk method env skb s off
  | .aarp off => handleAarp clk method env skb s off
  | .ddp off => handleDdp clk method env skb s off
  | .pppoe => handlePppoe clk pl method env skb s
  | .passed => { ret := if method = .check then -1 else 0, skb := skb, adapter := s }
  | .ipv6 => handleIpv6 clk pl method env skb s
  | .unknown => { ret := -1, skb := skb, adapter := s }

/-! ## The network address of a frame -/

/-- The network address that is inserted; `none` if nothing is. -/
def insertKey : Option NetworkAddr :=
  match packet skb with
  | .ip =>
    if skb.len ≤ ipHdrLen skb ∨ ipSaddr skb = zeroIp then none
    else some (ipv4NetworkAddr (ipSaddr skb))
  | .arp =>
    if skb.be16 (ethHlen + 2) ≠ ethPIp then none else some (ipv4NetworkAddr (arpSender skb s))
  | .ipx off =>
    if skb.sa = skb.mac (off + 22) then
      some (ipxNetworkAddrWithSocket (skb.bytes (off + 18) 4) (skb.bytes (off + 28) 2))
    else
      some (ipxNetworkAddrWithNode (skb.bytes (off + 18) 4) (skb.bytes (off + 22) 6))
  | .aarp off =>
    if aarpInsane skb off then none
    else some (appleNetworkAddr (skb.bytes (off + 15) 2) (skb.bytes (off + 17) 1))
  | .ddp off => some (appleNetworkAddr (skb.bytes (off + 6) 2) (skb.bytes (off + 9) 1))
  | .pppoe =>
    if pppoeSid skb = [0, 0] then none
    else some (pppoeNetworkAddr (skb.bytes 0 6) (pppoeSid skb))
  | .ipv6 =>
    if ipv6Malformed skb ∨ ipv6Saddr skb = zeroIpv6 then none
    else some (ipv6NetworkAddr (ipv6Saddr skb))
  | .passed => none
  | .unknown => none

/-- The network address that is looked up; `none` if none is. -/
def lookupKey : Option NetworkAddr :=
  match packet skb with
  | .ip => if skb.len ≤ ipHdrLen skb then none else some (ipv4NetworkAddr (ipDaddr skb))
  | .arp => if skb.be16 (ethHlen + 2) ≠ ethPIp then none else some (ipv4NetworkAddr (arpTarget skb))
  | .ipx off =>
    if s.macAddr = skb.mac (off + 10) then
      some (ipxNetworkAddrWithSocket (skb.bytes (off + 6) 4) (skb.bytes (off + 16) 2))
    else
      some (ipxNetworkAddrWithNode (skb.bytes (off + 6) 4) (skb.bytes (off + 10) 6))
  | .aarp off =>
    if aarpInsane skb off then none
    else some (appleNetworkAddr (skb.bytes (off + 25) 2) (skb.bytes (off + 27) 1))
  | .ddp off => some (appleNetworkAddr (skb.bytes (off + 4) 2) (skb.bytes (off + 8) 1))
  | .pppoe =>
    if isPadoPads skb ∨ pppoeSid skb = [0, 0] then none
    else some (pppoeNetworkAddr (skb.bytes 6 6) (pppoeSid skb))
  | .ipv6 => if ipv6Malformed skb then none else some (ipv6NetworkAddr (ipv6Daddr skb))
  | .passed => none
  | .unknown => none

variable {clk pl method env skb s} {k : NetworkAddr} {db : Db w}

/-- A check changes nothing. -/
theorem nat25DbHandle_check : (nat25DbHandle clk pl .check env skb s).adapter = s := by
  unfold nat25DbHandle
  cases packet skb with
  | ipx off =>
    dsimp only [handleIpx]
    split <;> rfl
  | ip =>
    dsimp only [handleIp]
    split <;> rfl
  | arp =>
    dsimp only [handleArp]
    split <;> rfl
  | aarp off =>
    dsimp only [handleAarp]
    split <;> rfl
  | ipv6 =>
    dsimp only [handleIpv6]
    split <;> rfl
  | ddp _ | pppoe | passed | unknown => rfl

/-- An insertion puts the network address of the frame in the database, with its source. -/
theorem nat25DbHandle_insert :
    (nat25DbHandle clk pl .insert env skb s).adapter.db =
      (insertKey skb s).elim s.db fun k => s.db.insert env.jiffies env.mem skb.sa k := by
  unfold nat25DbHandle insertKey
  cases packet skb with
  | ip =>
    dsimp only [handleIp]
    by_cases hlen : skb.len ≤ ipHdrLen skb
    · simp [hlen]
    · by_cases hsaddr : ipSaddr skb = zeroIp <;> simp [hlen, hsaddr, networkInsert]
  | arp =>
    dsimp only [handleArp]
    split_ifs <;> rfl
  | ipx off =>
    dsimp only [handleIpx]
    split_ifs <;> rfl
  | aarp off =>
    dsimp only [handleAarp]
    split_ifs <;> rfl
  | pppoe =>
    -- the discovery phase has no part in the database
    dsimp only [handlePppoe]
    split_ifs <;> try rfl
    cases pl.addRelayTag skb <;> rfl
  | ipv6 =>
    dsimp only [handleIpv6]
    by_cases hlen : ipv6Malformed skb = true
    · simp [hlen]
    · by_cases hsaddr : ipv6Saddr skb = zeroIpv6 <;> simp [hlen, hsaddr, networkInsert]
  | ddp _ | passed | unknown => rfl

theorem netdevBrInit_eq : ∃ brMac info,
    netdevBrInit env s = { s with brMac := brMac, ethBrExtInfo := info } := by
  unfold netdevBrInit
  split
  · cases env.bridge <;> exact ⟨_, _, rfl⟩
  · exact ⟨_, _, rfl⟩

theorem ipUnknown_adapter (env : Env w) (skb : Skb) (s : Adapter w) (daddr : Ip) :
    ∃ brMac info,
    (ipUnknown env skb s daddr).adapter = { s with brMac := brMac, ethBrExtInfo := info } := by
  unfold ipUnknown
  split
  · exact ⟨_, _, rfl⟩
  · dsimp only
    split
    · exact netdevBrInit_eq
    · exact ⟨_, _, rfl⟩

/-- What a lookup does to the database. -/
theorem nat25DbHandle_lookup :
    (nat25DbHandle clk pl .lookup env skb s).adapter.db =
      (lookupKey skb s).elim s.db fun k => (s.db.lookupAndReplace clk env.jiffies skb k).2.2 := by
  unfold nat25DbHandle lookupKey
  cases packet skb with
  | ip =>
    dsimp only [handleIp]
    split_ifs with hlen hfound
    · rfl
    · obtain ⟨brMac, info, heq⟩ := ipUnknown_adapter env
        (lookupAndReplace clk env skb s (ipv4NetworkAddr (ipDaddr skb))).2.1
        (lookupAndReplace clk env skb s (ipv4NetworkAddr (ipDaddr skb))).2.2 (ipDaddr skb)
      rw [heq]
      rfl
    · rfl
  | arp =>
    dsimp only [handleArp]
    split_ifs <;> rfl
  | ipx off =>
    dsimp only [handleIpx]
    split_ifs <;> rfl
  | aarp off =>
    dsimp only [handleAarp]
    split_ifs <;> rfl
  | pppoe =>
    dsimp only [handlePppoe]
    by_cases hpado : isPadoPads skb = true
    · simp only [hpado, true_or, if_true, Option.elim_none]
      split_ifs
      · cases pl.takeRelayTag skb <;> rfl
      · rfl
      · rfl
    · by_cases hsid : pppoeSid skb = [0, 0]
      · rw [if_neg hpado, if_pos hsid, if_pos (Or.inr hsid)]
        rfl
      · rw [if_neg hpado, if_neg hsid, if_neg (not_or.mpr ⟨hpado, hsid⟩)]
        rfl
  | ipv6 =>
    dsimp only [handleIpv6]
    split_ifs <;> rfl
  | ddp _ | passed | unknown => rfl

/-- Two adapters with the same MAC address and the same shortcut. -/
structure SameScdb (s t : Adapter w) : Prop where
  macAddr : t.macAddr = s.macAddr
  scdbMac : t.scdbMac = s.scdbMac
  scdbIp : t.scdbIp = s.scdbIp
  scdbEntry : t.scdbEntry = s.scdbEntry

/-- The handler does not know of the shortcut. -/
theorem nat25DbHandle_sameScdb : SameScdb s (nat25DbHandle clk pl method env skb s).adapter := by
  cases method with
  | check =>
    rw [nat25DbHandle_check]
    exact ⟨rfl, rfl, rfl, rfl⟩
  | insert =>
    unfold nat25DbHandle
    cases packet skb with
    | ip =>
      dsimp only [handleIp]
      split_ifs <;> exact ⟨rfl, rfl, rfl, rfl⟩
    | arp =>
      dsimp only [handleArp]
      split_ifs <;> exact ⟨rfl, rfl, rfl, rfl⟩
    | ipx off =>
      dsimp only [handleIpx]
      split_ifs <;> exact ⟨rfl, rfl, rfl, rfl⟩
    | aarp off =>
      dsimp only [handleAarp]
      split_ifs <;> exact ⟨rfl, rfl, rfl, rfl⟩
    | pppoe =>
      dsimp only [handlePppoe]
      cases pl.addRelayTag skb <;> split_ifs <;> exact ⟨rfl, rfl, rfl, rfl⟩
    | ipv6 =>
      dsimp only [handleIpv6]
      split_ifs <;> exact ⟨rfl, rfl, rfl, rfl⟩
    | ddp _ | passed | unknown => exact ⟨rfl, rfl, rfl, rfl⟩
  | lookup =>
    unfold nat25DbHandle
    cases packet skb with
    | ip =>
      dsimp only [handleIp]
      split_ifs with hlen hfound
      · exact ⟨rfl, rfl, rfl, rfl⟩
      · -- here the address of the bridge may be written
        obtain ⟨brMac, info, heq⟩ := ipUnknown_adapter env
          (lookupAndReplace clk env skb s (ipv4NetworkAddr (ipDaddr skb))).2.1
          (lookupAndReplace clk env skb s (ipv4NetworkAddr (ipDaddr skb))).2.2 (ipDaddr skb)
        rw [heq]
        exact ⟨rfl, rfl, rfl, rfl⟩
      · exact ⟨rfl, rfl, rfl, rfl⟩
    | arp =>
      dsimp only [handleArp]
      split_ifs <;> exact ⟨rfl, rfl, rfl, rfl⟩
    | ipx off =>
      dsimp only [handleIpx]
      split_ifs <;> exact ⟨rfl, rfl, rfl, rfl⟩
    | aarp off =>
      dsimp only [handleAarp]
      split_ifs <;> exact ⟨rfl, rfl, rfl, rfl⟩
    | pppoe =>
      dsimp only [handlePppoe]
      cases pl.takeRelayTag skb <;> split_ifs <;> exact ⟨rfl, rfl, rfl, rfl⟩
    | ipv6 =>
      dsimp only [handleIpv6]
      split_ifs <;> exact ⟨rfl, rfl, rfl, rfl⟩
    | ddp _ | passed | unknown => exact ⟨rfl, rfl, rfl, rfl⟩

/-- A frame has been treated alike: with the same return value, the same rewriting of the frame and
the same changes of the adapter, but for the database. -/
structure Alike (r r' : Res w) : Prop where
  ret : r'.ret = r.ret
  skb : r'.skb = r.skb
  adapter : r'.adapter = { r.adapter with db := r'.adapter.db }

theorem ipUnknown_alike (db db' : Db w) (daddr : Ip) :
    Alike (ipUnknown env skb { s with db := db } daddr)
      (ipUnknown env skb { s with db := db' } daddr) := by
  unfold ipUnknown
  split
  · exact ⟨rfl, rfl, rfl⟩
  · dsimp only
    split
    · unfold netdevBrInit
      cases env.brPort <;> cases env.bridge <;> exact ⟨rfl, rfl, rfl⟩
    · exact ⟨rfl, rfl, rfl⟩

/-- What a lookup does with a frame depends on what it finds in the database only. Whether it has
found an entry matters for IP frames. -/
theorem nat25DbHandle_alike (hk : lookupKey skb s = some k)
    (hskb : (db.lookupAndReplace clk env.jiffies skb k).2.1 =
      (s.db.lookupAndReplace clk env.jiffies skb k).2.1)
    (hfound : packet skb = .ip → (db.lookupAndReplace clk env.jiffies skb k).1 =
      (s.db.lookupAndReplace clk env.jiffies skb k).1) :
    Alike (nat25DbHandle clk pl .lookup env skb s)
      (nat25DbHandle clk pl .lookup env skb { s with db := db }) := by
  unfold lookupKey at hk
  unfold nat25DbHandle
  cases hpacket : packet skb with
  | ip =>
    rw [hpacket] at hk
    obtain ⟨hlen, hk⟩ := Option.ite_none_left_eq_some.mp hk
    obtain rfl := Option.some.inj hk
    have hfound' :
        (lookupAndReplace clk env skb { s with db := db } (ipv4NetworkAddr (ipDaddr skb))).1 =
          (lookupAndReplace clk env skb s (ipv4NetworkAddr (ipDaddr skb))).1 := hfound hpacket
    dsimp only [handleIp]
    rw [if_neg hlen, if_neg hlen]
    split_ifs with h₁ h₂ h₂
    · dsimp only [lookupAndReplace]
      rw [hskb]
      exact ipUnknown_alike _ _ _
    · exact absurd (hfound' ▸ h₁) h₂
    · exact absurd (hfound' ▸ h₂) h₁
    · dsimp only [lookupAndReplace]
      rw [hskb]
      exact ⟨rfl, rfl, rfl⟩
  | arp =>
    rw [hpacket] at hk
    obtain ⟨hpro, hk⟩ := Option.ite_none_left_eq_some.mp hk
    obtain rfl := Option.some.inj hk
    dsimp only [handleArp]
    rw [if_neg hpro, if_neg hpro]
    dsimp only [lookupAndReplace]
    rw [hskb]
    exact ⟨rfl, rfl, rfl⟩
  | ipx off =>
    rw [hpacket] at hk
    dsimp only at hk
    dsimp only [handleIpx]
    split_ifs at hk with hnode
    · obtain rfl := Option.some.inj hk
      rw [if_pos hnode, if_pos hnode]
      dsimp only [lookupAndReplace]
      rw [hskb]
      exact ⟨rfl, rfl, rfl⟩
    · obtain rfl := Option.some.inj hk
      rw [if_neg hnode, if_neg hnode]
      dsimp only [lookupAndReplace]
      rw [hskb]
      exact ⟨rfl, rfl, rfl⟩
  | aarp off =>
    rw [hpacket] at hk
    obtain ⟨hsane, hk⟩ := Option.ite_none_left_eq_some.mp hk
    obtain rfl := Option.some.inj hk
    dsimp only [handleAarp]
    rw [if_neg hsane, if_neg hsane]
    dsimp only [lookupAndReplace]
    rw [hskb]
    exact ⟨rfl, rfl, rfl⟩
  | ddp off =>
    rw [hpacket] at hk
    obtain rfl := Option.some.inj hk
    dsimp only [handleDdp, lookupAndReplace]
    rw [hskb]
    exact ⟨rfl, rfl, rfl⟩
  | pppoe =>
    rw [hpacket] at hk
    obtain ⟨hsession, hk⟩ := Option.ite_none_left_eq_some.mp hk
    obtain rfl := Option.some.inj hk
    obtain ⟨hpado, hsid⟩ := not_or.mp hsession
    dsimp only [handlePppoe]
    rw [if_neg hpado, if_neg hpado, if_neg hsid, if_neg hsid]
    dsimp only [lookupAndReplace]
    rw [hskb]
    exact ⟨rfl, rfl, rfl⟩
  | ipv6 =>
    rw [hpacket] at hk
    obtain ⟨hlen, hk⟩ := Option.ite_none_left_eq_some.mp hk
    obtain rfl := Option.some.inj hk
    dsimp only [handleIpv6]
    rw [if_neg hlen, if_neg hlen]
    dsimp only [lookupAndReplace]
    rw [hskb]
    exact ⟨rfl, rfl, rfl⟩
  | passed | unknown =>
    rw [hpacket] at hk
    exact nomatch hk

/-- A frame whose destination is found gets the destination address of the lookup. -/
theorem nat25DbHandle_da (hk : lookupKey skb s = some k)
    (hfound : packet skb = .ip → (s.db.lookupAndReplace clk env.jiffies skb k).1 = true) :
    (nat25DbHandle clk pl .lookup env skb s).skb.da =
      (s.db.lookupAndReplace clk env.jiffies skb k).2.1.da := by
  unfold lookupKey at hk
  unfold nat25DbHandle
  cases hpacket : packet skb with
  | ip =>
    rw [hpacket] at hk
    obtain ⟨hlen, hk⟩ := Option.ite_none_left_eq_some.mp hk
    obtain rfl := Option.some.inj hk
    have hfound' : (lookupAndReplace clk env skb s (ipv4NetworkAddr (ipDaddr skb))).1 = true :=
      hfound hpacket
    dsimp only [handleIp]
    rw [if_neg hlen, if_neg (by simp [hfound'])]
    rfl
  | arp =>
    rw [hpacket] at hk
    obtain ⟨hpro, hk⟩ := Option.ite_none_left_eq_some.mp hk
    obtain rfl := Option.some.inj hk
    dsimp only [handleArp]
    rw [if_neg hpro]
    -- the target address is behind the destination
    exact Skb.mac_setMac_of_le _ _ (by simp only [arpPtr, ethHlen]; omega)
  | ipx off =>
    rw [hpacket] at hk
    dsimp only at hk
    dsimp only [handleIpx]
    split_ifs at hk with hnode
    · obtain rfl := Option.some.inj hk
      rw [if_pos hnode]
      exact Skb.mac_setMac_of_le _ _ (by omega)
    · obtain rfl := Option.some.inj hk
      rw [if_neg hnode]
      rfl
  | aarp off =>
    rw [hpacket] at hk
    obtain ⟨hsane, hk⟩ := Option.ite_none_left_eq_some.mp hk
    obtain rfl := Option.some.inj hk
    dsimp only [handleAarp]
    rw [if_neg hsane]
    exact Skb.mac_setMac_of_le _ _ (by omega)
  | ddp off =>
    rw [hpacket] at hk
    obtain rfl := Option.some.inj hk
    rfl
  | pppoe =>
    rw [hpacket] at hk
    obtain ⟨hsession, hk⟩ := Option.ite_none_left_eq_some.mp hk
    obtain rfl := Option.some.inj hk
    obtain ⟨hpado, hsid⟩ := not_or.mp hsession
    dsimp only [handlePppoe]
    rw [if_neg hpado, if_neg hsid]
    rfl
  | ipv6 =>
    rw [hpacket] at hk
    obtain ⟨hlen, hk⟩ := Option.ite_none_left_eq_some.mp hk
    obtain rfl := Option.some.inj hk
    dsimp only [handleIpv6]
    rw [if_neg hlen]
    rfl
  | passed | unknown =>
    rw [hpacket] at hk
    exact nomatch hk

/-! ## A bridge with clients -/

/-- `HZ` is 100 on a machine of 64 bits. -/
def clock100 : Clock 64 := { hz := 100, bits_pos := by decide, ageing_le := by decide }

/-- Payloads are left alone. -/
def samePayload : Payload :=
  { addRelayTag := some, takeRelayTag := some, updateNd := fun _ skb => skb }

/-- The MAC address of a host. -/
def hostMac (n : Byte) : EthAddr := { zeroMac with o0 := 2, o5 := n }

/-- An IP frame, with addresses in `192.168.1`. -/
def ipFrame (da sa : EthAddr) (saddr daddr : Byte) : Skb :=
  { data := fun i =>
      [da.o0, da.o1, da.o2, da.o3, da.o4, da.o5, sa.o0, sa.o1, sa.o2, sa.o3, sa.o4, sa.o5, 8, 0,
        0x45, 0, 0, 20, 0, 0, 0, 0, 64, 17, 0, 0, 192, 168, 1, saddr, 192, 168, 1, daddr].getD i 0
    len := 34 }

/-- The host 1 is an adapter in a bridge, which is the host 3. -/
def bridgedAdapter : Adapter 64 :=
  { macAddr := hostMac 1
    db :=
      { nethash := Chains.empty
        entry := fun _ =>
          { useCount := 0, macAddr := zeroMac, ageingTimer := 0, networkAddr := fun _ => 0 }
        live := [] }
    scdbMac := zeroMac
    scdbIp := zeroIp
    scdbEntry := none
    brMac := hostMac 3
    brIp := zeroIp
    pppoeConnectionInProgress := 0
    pppoeAddr := zeroMac
    ethBrExtInfo :=
      { nat25Disable := false, dhcpBcstDisable := false, addPPPoETag := true
        nat25scDisable := false } }

/-- Its system, with free memory at the address `mem`. -/
def bridgedSys (mem : Option Addr) : Sys :=
  { mem := mem, brPort := true, bridge := some (hostMac 3) }

end Rtl88x2cu.Nat25
