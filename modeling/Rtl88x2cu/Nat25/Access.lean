import Rtl88x2cu.Nat25.PppoeRelay

/-!
# What the handler of frames accesses

The bytes of a frame that `nat25_db_handle` reads and writes (`core/rtw_br_ext.c`), protocol by
protocol, in the order of the source. `Skb.need` is an access; it fails where there is no byte of
the frame. A function here returns `some ()` if all accesses are inside the frame, or inside the
tailroom that has been reserved, and all loops end. `dbAccess_inside` connects this with the
handler: what it returns depends on the bytes of the frame only.

All frames have an Ethernet header: its addresses are read and written without a test. `log` says
whether messages are printed; they read the frame too.
-/

namespace Rtl88x2cu.Nat25

open Bytes (Byte)
open OnesComplement Walker

namespace Skb

variable (skb : Skb)

/-- An access to `n` bytes from the offset `off` on. -/
def need (off n : ℕ) : Option Unit := if off + n ≤ skb.len then some () else none

/-- The bytes of the frame. -/
def inside (i : ℕ) : Option Byte := if i < skb.len then some (skb.data i) else none

end Skb

/-- The accesses for a message. -/
def logged (log : Bool) (accesses : Option Unit) : Option Unit := if log then accesses else some ()

variable {w : ℕ} (log : Bool) (method : Method) (s : Adapter w) (skb : Skb)

/-! ## The protocols -/

/-- IP frames. -/
def ipAccess : Option Unit := do
  skb.need ethHlen 1
  if skb.len ≤ ipHdrLen skb then some ()
  else
    match method with
    | .check => some ()
    | .insert => do
      skb.need (ethHlen + 12) 4
      if ipSaddr skb = zeroIp then some () else logged log (skb.need (ethHlen + 12) 8)
    | .lookup => do
      logged log (skb.need (ethHlen + 12) 8)
      skb.need (ethHlen + 16) 4

/-- ARP frames. -/
def arpAccess : Option Unit := do
  skb.need (ethHlen + 2) 2
  if skb.be16 (ethHlen + 2) ≠ ethPIp then some ()
  else
    match method with
    | .check => some ()
    | .insert => do
      skb.need arpPtr 6
      skb.need (ethHlen + 4) 1
      skb.need (arpPtr + arHln skb) 4
    | .lookup => do
      skb.need (ethHlen + 4) 2
      skb.need (arpPtr + arHln skb + (arHln skb + arPln skb)) 4
      skb.need (arpPtr + (arHln skb + arPln skb)) 6

/-- The header in front of IPX and AppleTalk. -/
def appleHeadAccess : Option Unit :=
  if skb.protocol = ethPIpx then some ()
  else do
    skb.need ethHlen 2
    if skb.bytes ethHlen 2 = [0xFF, 0xFF] then some ()
    else if skb.data ethHlen = 0xAA then skb.need (ethHlen + 3) 5
    else if skb.data ethHlen = 0xE0 then skb.need (ethHlen + 3) 2
    else some ()

/-- IPX frames, the header at the offset `ipx`. -/
def ipxAccess (ipx : ℕ) : Option Unit :=
  match method with
  | .check => skb.need (ipx + 22) 6
  | .insert => do
    logged log (skb.need (ipx + 6) 24)
    skb.need (ipx + 22) 6
    skb.need (ipx + 18) 4
    if skb.sa = skb.mac (ipx + 22) then skb.need (ipx + 28) 2 else some ()
  | .lookup => do
    skb.need (ipx + 10) 6
    skb.need (ipx + 6) 4
    if s.macAddr = skb.mac (ipx + 10) then skb.need (ipx + 16) 2 else some ()

/-- AARP frames, the header at the offset `ea`. -/
def aarpAccess (ea : ℕ) : Option Unit := do
  skb.need (ea + 4) 1
  if skb.data (ea + 4) ≠ 6 then some ()
  else do
    skb.need (ea + 5) 1
    if skb.data (ea + 5) ≠ 4 then some ()
    else
      match method with
      | .check => some ()
      | .insert => do
        skb.need (ea + 8) 6
        logged log (do skb.need (ea + 15) 3; skb.need (ea + 25) 3)
        skb.need (ea + 15) 3
      | .lookup => do
        logged log (do skb.need (ea + 15) 3; skb.need (ea + 25) 3)
        skb.need (ea + 25) 3
        skb.need (ea + 18) 6

/-- DDP frames, the header at the offset `ddp`. -/
def ddpAccess (ddp : ℕ) : Option Unit :=
  match method with
  | .check => some ()
  | .insert => do
    logged log (skb.need (ddp + 4) 6)
    skb.need (ddp + 6) 2
    skb.need (ddp + 9) 1
  | .lookup => do
    logged log (skb.need (ddp + 4) 6)
    skb.need (ddp + 4) 2
    skb.need (ddp + 8) 1

section Pppoe

variable (e : Endian) (tailroom : ℕ)

/-- `__nat25_add_pppoe_tag`. The tag is read from `tag_buf`. -/
def addAccess (tag : ℕ → Byte) (skb : Skb) : Option Unit :=
  let dataLen := addedLen e tag
  if tailroom < dataLen then some ()
  else do
    let length := skb.be16 pppoeLength
    let put := { skb with len := skb.len + dataLen }
    put.need pppoeTags length
    put.need (pppoeTags + dataLen) length
    put.need pppoeTags dataLen
    if sizeofTagBuf < dataLen then none else some ()

/-- PADI and PADR. -/
def requestAccess : Option Unit := do
  skb.need pppoeLength 2
  match ← nat25FindPppoeTag skb.inside (skb.be16 pppoeLength) pttRelaySid with
  | none => addAccess e tailroom (relayTag (fun _ => 0) [] skb.sa) skb
  | some pOldTag =>
    let oldTagLen := skb.be16 (pOldTag + 2)
    if sizeofTagBuf < oldTagLen + tagHdrLen + relayLen then some ()
    else do
      skb.need (pOldTag + tagHdrLen) oldTagLen
      match skb.pullAndMerge pOldTag (tagHdrLen + oldTagLen) with
      | none => some ()
      | some skb' =>
        let old := skb.bytes (pOldTag + tagHdrLen) oldTagLen
        addAccess e (tailroom + (tagHdrLen + oldTagLen)) (relayTag (fun _ => 0) old skb.sa)
          (skb'.store .big pppoeLength
            (BitVec.ofNat 16 (skb.be16 pppoeLength) - BitVec.ofNat 16 (tagHdrLen + oldTagLen)))

/-- PADO and PADS. What `skb_pull_and_merge` moves it has tested. -/
def answerAccess : Option Unit := do
  skb.need pppoeLength 2
  match ← nat25FindPppoeTag skb.inside (skb.be16 pppoeLength) pttRelaySid with
  | none => some ()
  | some ptr =>
    if skb.be16 (ptr + 2) < relayLen then some ()
    else do
      skb.need (ptr + tagHdrLen) 2
      if skb.bytes (ptr + tagHdrLen) 2 ≠ magicCode then some ()
      else skb.need (ptr + tagHdrLen + 2) 6

/-- PPPoE frames. -/
def pppoeAccess : Option Unit :=
  match method with
  | .check => skb.need (ethHlen + 2) 2
  | .insert => do
    skb.need (ethHlen + 2) 2
    if pppoeSid skb ≠ [0, 0] then some ()
    else do
      skb.need (ethHlen + 1) 1
      if isPadiPadr skb && s.ethBrExtInfo.addPPPoETag then requestAccess skb e tailroom else some ()
  | .lookup => do
    skb.need (ethHlen + 1) 1
    if isPadoPads skb then
      if s.ethBrExtInfo.addPPPoETag then answerAccess skb else some ()
    else skb.need (ethHlen + 2) 2

end Pppoe

/-- The checksum of a neighbour discovery message: `csum_partial` reads as many bytes as the host
loads from `iph->payload_len`. -/
def icmp6SumAccess (e : Endian) : Option Unit := do
  skb.need icmp6Cksum 2
  skb.need payloadLen 2
  skb.need (ethHlen + 8) 32
  skb.need icmp6Ptr (skb.load e payloadLen).toNat

/-- IPv6 frames. -/
def ipv6Access (e : Endian) (n : ℕ) : Option Unit :=
  if ipv6Malformed skb then some ()
  else
    match method with
    | .check => some ()
    | .insert => do
      logged log (skb.need (ethHlen + 8) 32)
      skb.need (ethHlen + 8) 16
      if ipv6Saddr skb = zeroIpv6 then some ()
      else do
        skb.need (ethHlen + 6) 1
        if isIcmpv6 skb then
          match ← findLinkLayerAddr skb.inside n icmp6Ptr (skb.len - icmp6Ptr) with
          | none => some ()
          | some mac => do
            logged log (skb.need mac 6)
            skb.need mac 6
            icmp6SumAccess skb e
        else some ()
    | .lookup => do
      logged log (skb.need (ethHlen + 8) 32)
      skb.need (ethHlen + 24) 16

/-- `nat25_db_handle`, with `n` iterations for the options of a neighbour discovery message. -/
def dbAccess (e : Endian) (tailroom n : ℕ) : Option Unit := do
  skb.need 12 2
  match packet skb with
  | .ip => ipAccess log method skb
  | .arp => arpAccess method skb
  | .ipx off => do appleHeadAccess skb; ipxAccess log method s skb off
  | .aarp off => do appleHeadAccess skb; aarpAccess log method skb off
  | .ddp off => do appleHeadAccess skb; ddpAccess log method skb off
  | .pppoe => pppoeAccess method s skb e tailroom
  | .passed => some ()
  | .ipv6 => ipv6Access log method skb e n
  | .unknown =>
    -- not an IPX or AppleTalk frame, which only its header tells
    if skb.protocol = ethPAtalk ∨ skb.protocol = ethPAarp then appleHeadAccess skb else some ()

end Rtl88x2cu.Nat25
