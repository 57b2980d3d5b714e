import Mathlib.Algebra.Order.Ring.Nat
import Mathlib.Data.List.Basic
import Mathlib.Data.List.Forall2
import Mathlib.Data.List.GetD
import Mathlib.Logic.Function.Iterate
import Rtl88x2cu.Lib.Crc
import Rtl88x2cu.Lib.KeyStream

/-!
# Software TKIP

Each MPDU has an RC4 key of its own, mixed from the temporal key, the transmitter's address and the
packet number, which the MPDU carries in its IV. The payload is encrypted together with its CRC, the
ICV (`core/rtw_security.c`).

`tkip_ok` says that the receiver reads the packet number that was sent, that decryption undoes
encryption with a matching ICV, and that a change of a byte of payload or ICV is detected.
-/

namespace Rtl88x2cu.Core.Tkip

open Bytes

/-! ## RC4 -/

/-- `struct arc4context`. The indices are masked with 0xff: they are bytes. -/
structure Arc4Context where
  x : Byte
  y : Byte
  state : Vector Byte 256

/-- Read the state. -/
def Arc4Context.get (state : Vector Byte 256) (i : Byte) : Byte := state.get i.toFin

def Arc4Context.put (state : Vector Byte 256) (i b : Byte) : Vector Byte 256 :=
  state.set i.toNat b i.isLt

open Arc4Context

/-- One turn of the second loop of `arcfour_init`. -/
def arcfourInitStep (key : List Byte) (keyLen : ℕ) :
    ℕ × Byte × Vector Byte 256 → Byte → ℕ × Byte × Vector Byte 256
  | (keyindex, stateindex, state), counter =>
    let t := get state counter
    let stateindex := stateindex + key.getD keyindex 0 + t
    let u := get state stateindex
    let state := put (put state stateindex t) counter u
    (if keyindex + 1 ≥ keyLen then 0 else keyindex + 1, stateindex, state)

/-- `arcfour_init`. -/
def arcfourInit (key : List Byte) (keyLen : ℕ) : Arc4Context :=
  let state := Vector.ofFn fun i : Fin 256 => BitVec.ofFin i
  let turns := (List.range 256).map (BitVec.ofNat 8)
  ⟨0, 0, (turns.foldl (arcfourInitStep key keyLen) (0, 0, state)).2.2⟩

/-- `arcfour_byte`. -/
def arcfourByte (c : Arc4Context) : Byte × Arc4Context :=
  let x := c.x + 1
  let sx := get c.state x
  let y := sx + c.y
  let sy := get c.state y
  let state := put (put c.state y sx) x sy
  (get state (sx + sy), ⟨x, y, state⟩)

/-- `arcfour_encrypt`. -/
def arcfourEncrypt (c : Arc4Context) (src : List Byte) : List Byte × Arc4Context :=
  KeyStream.encrypt arcfourByte c src

/-! ## CRC -/

/-- `crc32_reverseBit`. -/
def crc32ReverseBit (data : Byte) : Byte :=
  ((data <<< 7) &&& 0x80) ||| ((data <<< 5) &&& 0x40) ||| ((data <<< 3) &&& 0x20) |||
    ((data <<< 1) &&& 0x10) ||| ((data >>> 1) &&& 0x08) ||| ((data >>> 3) &&& 0x04) |||
    ((data >>> 5) &&& 0x02) ||| ((data >>> 7) &&& 0x01)

/-- `CRC32_POLY`. -/
def crc32Poly : BitVec 32 := 0x04c11db7

/-- The inner loop of `crc32_init`. -/
def crc32Shift (c : BitVec 32) : BitVec 32 :=
  if c &&& 0x80000000 ≠ 0 then (c <<< 1) ^^^ crc32Poly else c <<< 1

/-- An entry of `crc32_table`, as `crc32_init` computes it: the bytes in the other order, and the
bits of each. -/
def crc32Table (i : Byte) : BitVec 32 :=
  let k := crc32ReverseBit i
  let c := crc32Shift^[8] (k.setWidth 32 <<< 24)
  let p (n : ℕ) : Byte := (c >>> (8 * n)).setWidth 8
  crc32ReverseBit (p 0) ++ crc32ReverseBit (p 1) ++ crc32ReverseBit (p 2) ++ crc32ReverseBit (p 3)

/-- `getcrc32`. -/
def getcrc32 (buf : List Byte) : BitVec 32 :=
  ~~~buf.foldl (Crc.step crc32Table) 0xffffffff

example : getcrc32 [0x31, 0x32, 0x33, 0x34, 0x35, 0x36, 0x37, 0x38, 0x39] = 0xcbf43926 := by
  decide +kernel

/-! ## Key mixing -/

/-- `Sbox1[0]`. -/
def sbox1Lo : Array (BitVec 16) := #[
    0xC6A5, 0xF884, 0xEE99, 0xF68D, 0xFF0D, 0xD6BD, 0xDEB1, 0x9154, 0x6050, 0x0203, 0xCEA9, 0x567D,
    0xE719, 0xB562, 0x4DE6, 0xEC9A, 0x8F45, 0x1F9D, 0x8940, 0xFA87, 0xEF15, 0xB2EB, 0x8EC9, 0xFB0B,
    0x41EC, 0xB367, 0x5FFD, 0x45EA, 0x23BF, 0x53F7, 0xE496, 0x9B5B, 0x75C2, 0xE11C, 0x3DAE, 0x4C6A,
    0x6C5A, 0x7E41, 0xF502, 0x834F, 0x685C, 0x51F4, 0xD134, 0xF908, 0xE293, 0xAB73, 0x6253, 0x2A3F,
    0x080C, 0x9552, 0x4665, 0x9D5E, 0x3028, 0x37A1, 0x0A0F, 0x2FB5, 0x0E09, 0x2436, 0x1B9B, 0xDF3D,
    0xCD26, 0x4E69, 0x7FCD, 0xEA9F, 0x121B, 0x1D9E, 0x5874, 0x342E, 0x362D, 0xDCB2, 0xB4EE, 0x5BFB,
    0xA4F6, 0x764D, 0xB761, 0x7DCE, 0x527B, 0xDD3E, 0x5E71, 0x1397, 0xA6F5, 0xB968, 0x0000, 0xC12C,
    0x4060, 0xE31F, 0x79C8, 0xB6ED, 0xD4BE, 0x8D46, 0x67D9, 0x724B, 0x94DE, 0x98D4, 0xB0E8, 0x854A,
    0xBB6B, 0xC52A, 0x4FE5, 0xED16, 0x86C5, 0x9AD7, 0x6655, 0x1194, 0x8ACF, 0xE910, 0x0406, 0xFE81,
    0xA0F0, 0x7844, 0x25BA, 0x4BE3, 0xA2F3, 0x5DFE, 0x80C0, 0x058A, 0x3FAD, 0x21BC, 0x7048, 0xF104,
    0x63DF, 0x77C1, 0xAF75, 0x4263, 0x2030, 0xE51A, 0xFD0E, 0xBF6D, 0x814C, 0x1814, 0x2635, 0xC32F,
    0xBEE1, 0x35A2, 0x88CC, 0x2E39, 0x9357, 0x55F2, 0xFC82, 0x7A47, 0xC8AC, 0xBAE7, 0x322B, 0xE695,
    0xC0A0, 0x1998, 0x9ED1, 0xA37F, 0x4466, 0x547E, 0x3BAB, 0x0B83, 0x8CCA, 0xC729, 0x6BD3, 0x283C,
    0xA779, 0xBCE2, 0x161D, 0xAD76, 0xDB3B, 0x6456, 0x744E, 0x141E, 0x92DB, 0x0C0A, 0x486C, 0xB8E4,
    0x9F5D, 0xBD6E, 0x43EF, 0xC4A6, 0x39A8, 0x31A4, 0xD337, 0xF28B, 0xD532, 0x8B43, 0x6E59, 0xDAB7,
    0x018C, 0xB164, 0x9CD2, 0x49E0, 0xD8B4, 0xACFA, 0xF307, 0xCF25, 0xCAAF, 0xF48E, 0x47E9, 0x1018,
    0x6FD5, 0xF088, 0x4A6F, 0x5C72, 0x3824, 0x57F1, 0x73C7, 0x9751, 0xCB23, 0xA17C, 0xE89C, 0x3E21,
    0x96DD, 0x61DC, 0x0D86, 0x0F85, 0xE090, 0x7C42, 0x71C4, 0xCCAA, 0x90D8, 0x0605, 0xF701, 0x1C12,
    0xC2A3, 0x6A5F, 0xAEF9, 0x69D0, 0x1791, 0x9958, 0x3A27, 0x27B9, 0xD938, 0xEB13, 0x2BB3, 0x2233,
    0xD2BB, 0xA970, 0x0789, 0x33A7, 0x2DB6, 0x3C22, 0x1592, 0xC920, 0x8749, 0xAAFF, 0x5078, 0xA57A,
    0x038F, 0x59F8, 0x0980, 0x1A17, 0x65DA, 0xD731, 0x84C6, 0xD0B8, 0x82C3, 0x29B0, 0x5A77, 0x1E11,
    0x7BCB, 0xA8FC, 0x6DD6, 0x2C3A]

/-- `Sbox1[1]`. -/
def sbox1Hi : Array (BitVec 16) := #[
    0xA5C6, 0x84F8, 0x99EE, 0x8DF6, 0x0DFF, 0xBDD6, 0xB1DE, 0x5491, 0x5060, 0x0302, 0xA9CE, 0x7D56,
    0x19E7, 0x62B5, 0xE64D, 0x9AEC, 0x458F, 0x9D1F, 0x4089, 0x87FA, 0x15EF, 0xEBB2, 0xC98E, 0x0BFB,
    0xEC41, 0x67B3, 0xFD5F, 0xEA45, 0xBF23, 0xF753, 0x96E4, 0x5B9B, 0xC275, 0x1CE1, 0xAE3D, 0x6A4C,
    0x5A6C, 0x417E, 0x02F5, 0x4F83, 0x5C68, 0xF451, 0x34D1, 0x08F9, 0x93E2, 0x73AB, 0x5362, 0x3F2A,
    0x0C08, 0x5295, 0x6546, 0x5E9D, 0x2830, 0xA137, 0x0F0A, 0xB52F, 0x090E, 0x3624, 0x9B1B, 0x3DDF,
    0x26CD, 0x694E, 0xCD7F, 0x9FEA, 0x1B12, 0x9E1D, 0x7458, 0x2E34, 0x2D36, 0xB2DC, 0xEEB4, 0xFB5B,
    0xF6A4, 0x4D76, 0x61B7, 0xCE7D, 0x7B52, 0x3EDD, 0x715E, 0x9713, 0xF5A6, 0x68B9, 0x0000, 0x2CC1,
    0x6040, 0x1FE3, 0xC879, 0xEDB6, 0xBED4, 0x468D, 0xD967, 0x4B72, 0xDE94, 0xD498, 0xE8B0, 0x4A85,
    0x6BBB, 0x2AC5, 0xE54F, 0x16ED, 0xC586, 0xD79A, 0x5566, 0x9411, 0xCF8A, 0x10E9, 0x0604, 0x81FE,
    0xF0A0, 0x4478, 0xBA25, 0xE34B, 0xF3A2, 0xFE5D, 0xC080, 0x8A05, 0xAD3F, 0xBC21, 0x4870, 0x04F1,
    0xDF63, 0xC177, 0x75AF, 0x6342, 0x3020, 0x1AE5, 0x0EFD, 0x6DBF, 0x4C81, 0x1418, 0x3526, 0x2FC3,
    0xE1BE, 0xA235, 0xCC88, 0x392E, 0x5793, 0xF255, 0x82FC, 0x477A, 0xACC8, 0xE7BA, 0x2B32, 0x95E6,
    0xA0C0, 0x9819, 0xD19E, 0x7FA3, 0x6644, 0x7E54, 0xAB3B, 0x830B, 0xCA8C, 0x29C7, 0xD36B, 0x3C28,
    0x79A7, 0xE2BC, 0x1D16, 0x76AD, 0x3BDB, 0x5664, 0x4E74, 0x1E14, 0xDB92, 0x0A0C, 0x6C48, 0xE4B8,
    0x5D9F, 0x6EBD, 0xEF43, 0xA6C4, 0xA839, 0xA431, 0x37D3, 0x8BF2, 0x32D5, 0x438B, 0x596E, 0xB7DA,
    0x8C01, 0x64B1, 0xD29C, 0xE049, 0xB4D8, 0xFAAC, 0x07F3, 0x25CF, 0xAFCA, 0x8EF4, 0xE947, 0x1810,
    0xD56F, 0x88F0, 0x6F4A, 0x725C, 0x2438, 0xF157, 0xC773, 0x5197, 0x23CB, 0x7CA1, 0x9CE8, 0x213E,
    0xDD96, 0xDC61, 0x860D, 0x850F, 0x90E0, 0x427C, 0xC471, 0xAACC, 0xD890, 0x0506, 0x01F7, 0x121C,
    0xA3C2, 0x5F6A, 0xF9AE, 0xD069, 0x9117, 0x5899, 0x273A, 0xB927, 0x38D9, 0x13EB, 0xB32B, 0x3322,
    0xBBD2, 0x70A9, 0x8907, 0xA733, 0xB62D, 0x223C, 0x9215, 0x20C9, 0x4987, 0xFFAA, 0x7850, 0x7AA5,
    0x8F03, 0xF859, 0x8009, 0x171A, 0xDA65, 0x31D7, 0xC684, 0xB8D0, 0xC382, 0xB029, 0x775A, 0x111E,
    0xCB7B, 0xFCA8, 0xD66D, 0x3A2C]

/-- `_S_`. -/
def sBox (v : BitVec 16) : BitVec 16 :=
  sbox1Lo.getD (v.setWidth 8).toNat 0 ^^^ sbox1Hi.getD ((v >>> 8).setWidth 8).toNat 0

/-- The second half of the table is the first one with the bytes of each entry swapped. -/
theorem sbox1Hi_eq :
    sbox1Hi.toList = sbox1Lo.toList.map fun v : BitVec 16 => v.setWidth 8 ++
      (v >>> 8).setWidth 8 := by
  decide +kernel

/-- `RotR1`. -/
def rotR1 (v : BitVec 16) : BitVec 16 := ((v >>> 1) &&& 0x7fff) ^^^ ((v &&& 1) <<< 15)

/-- `Mk16`. -/
def mk16 (hi lo : Byte) : BitVec 16 := lo.setWidth 16 ^^^ (hi.setWidth 16 <<< 8)

/-- `TK16`. -/
def tk16 (tk : List Byte) (n : ℕ) : BitVec 16 := mk16 (tk.getD (2 * n + 1) 0) (tk.getD (2 * n) 0)

/-- The phase 1 key. Both phases use the buffer for it as 16-bit words. -/
structure P1k where
  p0 : BitVec 16
  p1 : BitVec 16
  p2 : BitVec 16
  p3 : BitVec 16
  p4 : BitVec 16
  deriving DecidableEq, Repr

/-- One turn of `phase1`. -/
def phase1Step (tk : List Byte) (p : P1k) (i : ℕ) : P1k :=
  let p0 := p.p0 + sBox (p.p4 ^^^ tk16 tk (i % 2 + 0))
  let p1 := p.p1 + sBox (p0 ^^^ tk16 tk (i % 2 + 2))
  let p2 := p.p2 + sBox (p1 ^^^ tk16 tk (i % 2 + 4))
  let p3 := p.p3 + sBox (p2 ^^^ tk16 tk (i % 2 + 6))
  let p4 := p.p4 + sBox (p3 ^^^ tk16 tk (i % 2 + 0))
  ⟨p0, p1, p2, p3, p4 + BitVec.ofNat 16 i⟩

/-- `phase1`. -/
def phase1 (tk ta : List Byte) (iv32 : BitVec 32) : P1k :=
  let p : P1k :=
    { p0 := iv32.setWidth 16
      p1 := (iv32 >>> 16).setWidth 16
      p2 := mk16 (ta.getD 1 0) (ta.getD 0 0)
      p3 := mk16 (ta.getD 3 0) (ta.getD 2 0)
      p4 := mk16 (ta.getD 5 0) (ta.getD 4 0) }
  (List.range 8).foldl (phase1Step tk) p

/-- `Lo8` and `Hi8`. -/
def lo8 (v : BitVec 16) : Byte := v.setWidth 8

def hi8 (v : BitVec 16) : Byte := (v >>> 8).setWidth 8

/-- `phase2`. -/
def phase2 (tk : List Byte) (p1k : P1k) (iv16 : BitVec 16) : List Byte :=
  let ppk5 := p1k.p4 + iv16
  let ppk0 := p1k.p0 + sBox (ppk5 ^^^ tk16 tk 0)
  let ppk1 := p1k.p1 + sBox (ppk0 ^^^ tk16 tk 1)
  let ppk2 := p1k.p2 + sBox (ppk1 ^^^ tk16 tk 2)
  let ppk3 := p1k.p3 + sBox (ppk2 ^^^ tk16 tk 3)
  let ppk4 := p1k.p4 + sBox (ppk3 ^^^ tk16 tk 4)
  let ppk5 := ppk5 + sBox (ppk4 ^^^ tk16 tk 5)
  let ppk0 := ppk0 + rotR1 (ppk5 ^^^ tk16 tk 6)
  let ppk1 := ppk1 + rotR1 (ppk0 ^^^ tk16 tk 7)
  let ppk2 := ppk2 + rotR1 ppk1
  let ppk3 := ppk3 + rotR1 ppk2
  let ppk4 := ppk4 + rotR1 ppk3
  let ppk5 := ppk5 + rotR1 ppk4
  [hi8 iv16, (hi8 iv16 ||| 0x20) &&& 0x7f, lo8 iv16, lo8 ((ppk5 ^^^ tk16 tk 0) >>> 1)] ++
    [ppk0, ppk1, ppk2, ppk3, ppk4, ppk5].flatMap fun w => [lo8 w, hi8 w]

example :
    let tk := (List.range 16).map (BitVec.ofNat 8)
    let p1k := phase1 tk [0x10, 0x22, 0x33, 0x44, 0x55, 0x66] 0
    p1k = ⟨0x3dd2, 0x016e, 0x76f4, 0x8697, 0xb2e8⟩ ∧
      phase2 tk p1k 0 = [0x00, 0x20, 0x00, 0x33, 0xea, 0x8d, 0x2f, 0x60,
        0xca, 0x6d, 0x13, 0x74, 0x23, 0x4a, 0x66, 0x0b] := by
  decide +kernel

/-! ## Packet numbers -/

/-- A byte of `union pn48`. -/
def tsc (pn : BitVec 64) (n : ℕ) : Byte := (pn >>> (8 * n)).setWidth 8

/-- `TKIP_IV`: the IV and the new packet number. -/
def tkipIv (dot11txpn : BitVec 64) (keyidx : Byte) : List Byte × BitVec 64 :=
  let pn := if dot11txpn = 0xffffffffffff then 0 else dot11txpn + 1
  ([tsc pn 1, (tsc pn 1 ||| 0x20) &&& 0x7f, tsc pn 0, 0x20 ||| ((keyidx &&& 3) <<< 6),
    tsc pn 2, tsc pn 3, tsc pn 4, tsc pn 5], pn)

/-- `GET_TKIP_PN`. It does not write the two top bytes of the local variable `dot11txpn`. -/
def getTkipPn (iv : List Byte) (dot11txpn : BitVec 64) : BitVec 64 :=
  tsc dot11txpn 7 ++ tsc dot11txpn 6 ++ iv.getD 7 0 ++ iv.getD 6 0 ++ iv.getD 5 0 ++ iv.getD 4 0 ++
    iv.getD 0 0 ++ iv.getD 2 0

/-- The RC4 key of an MPDU with the given IV; `dot11txpn` is what the local variable holds
before. -/
def rc4Key (prwskey ta iv : List Byte) (dot11txpn : BitVec 64) : List Byte :=
  let pn := getTkipPn iv dot11txpn
  phase2 prwskey (phase1 prwskey ta ((pn >>> 16).setWidth 32)) (pn.setWidth 16)

/-! ## Encryption and decryption -/

/-- `pattrib->encrypt`, as far as it is about TKIP. -/
inductive Encrypt where
  | tkip
  | other
  deriving DecidableEq, Repr

inductive Result where
  | success
  | fail
  deriving DecidableEq, Repr

/-- `IS_MCAST`. -/
def isMcast (da : List Byte) : Bool := (da.getD 0 0).getLsbD 0

/-- The fields of `struct security_priv` for TKIP. -/
structure SecurityPriv where
  dot118021XGrpKey : ℕ → List Byte
  dot118021XGrpKeyid : ℕ
  binstallGrpkey : Bool

/-- The fields of `struct pkt_attrib` for TKIP. -/
structure PktAttrib where
  encrypt : Encrypt
  ra : List Byte
  ta : List Byte
  hdrlen : ℕ
  ivLen : ℕ
  icvLen : ℕ
  dot118021xUncstKey : List Byte

/-- The key that the sender uses. -/
def txKey (priv : SecurityPriv) (a : PktAttrib) : List Byte :=
  if isMcast a.ra then priv.dot118021XGrpKey priv.dot118021XGrpKeyid else a.dot118021xUncstKey

/-- A CRC as it is in the frame. -/
def crcBytes (c : BitVec 32) : List Byte := le 4 c.toNat

/-- The loop body of `rtw_tkip_encrypt`, for one fragment. -/
def encryptFrag (a : PktAttrib) (prwskey : List Byte) (dot11txpn : BitVec 64)
    (pframe : List Byte) : List Byte :=
  let length := pframe.length - a.hdrlen - a.ivLen - a.icvLen
  let iv := slice pframe a.hdrlen 8
  let payload := slice pframe (a.ivLen + a.hdrlen) length
  let crc := crcBytes (getcrc32 payload)
  let mycontext := arcfourInit (rc4Key prwskey a.ta iv dot11txpn) 16
  let (dest, mycontext) := arcfourEncrypt mycontext payload
  let pframe := memcpy pframe (a.ivLen + a.hdrlen) dest
  memcpy pframe (a.ivLen + a.hdrlen + length) (arcfourEncrypt mycontext crc).1

/-- `rtw_tkip_encrypt`: the fragments afterwards. -/
def rtwTkipEncrypt (priv : SecurityPriv) (a : PktAttrib) (dot11txpn : BitVec 64)
    (frags : List (List Byte)) : List (List Byte) :=
  match a.encrypt with
  | .tkip => frags.map (encryptFrag a (txKey priv a) dot11txpn)
  | .other => frags

/-- The fields of `struct rx_pkt_attrib` for TKIP. -/
structure RxPktAttrib where
  encrypt : Encrypt
  ra : List Byte
  ta : List Byte
  hdrlen : ℕ
  ivLen : ℕ
  keyIndex : ℕ

/-- The receiver: `struct security_priv`, and the unicast key of each known station. -/
structure Receiver where
  priv : SecurityPriv
  stainfo : List Byte → Option (List Byte)

/-- The key that the receiver uses. -/
def rxKey (rx : Receiver) (a : RxPktAttrib) : Option (List Byte) :=
  match rx.stainfo a.ta with
  | none => none
  | some dot118021xUncstKey =>
    if isMcast a.ra then
      if rx.priv.binstallGrpkey then some (rx.priv.dot118021XGrpKey a.keyIndex) else none
    else some dot118021xUncstKey

/-- `rtw_tkip_decrypt`: the result, and the frame afterwards. -/
def rtwTkipDecrypt (rx : Receiver) (a : RxPktAttrib) (dot11txpn : BitVec 64) (pframe : List Byte) :
    Result × List Byte :=
  match a.encrypt with
  | .other => (.success, pframe)
  | .tkip =>
    match rxKey rx a with
    | none => (.fail, pframe)
    | some prwskey =>
      let iv := slice pframe a.hdrlen 8
      let length := pframe.length - a.hdrlen - a.ivLen
      let payload := slice pframe (a.ivLen + a.hdrlen) length
      let mycontext := arcfourInit (rc4Key prwskey a.ta iv dot11txpn) 16
      let payload := (arcfourEncrypt mycontext payload).1
      let crc := crcBytes (getcrc32 (payload.take (length - 4)))
      let res :=
        if crc.getD 3 0 ≠ payload.getD (length - 1) 0 ∨ crc.getD 2 0 ≠ payload.getD (length - 2) 0 ∨
            crc.getD 1 0 ≠ payload.getD (length - 3) 0 ∨
              crc.getD 0 0 ≠ payload.getD (length - 4) 0 then
          .fail
        else .success
      (res, memcpy pframe (a.ivLen + a.hdrlen) payload)

/-! ## Lemmas -/

theorem getLsbD_tsc (pn : BitVec 64) (n : ℕ) {i : ℕ} (hi : i < 8) :
    (tsc pn n).getLsbD i = pn.getLsbD (8 * n + i) := by
  simp [tsc, hi]

/-- The receiver puts the packet number together again. -/
theorem getTkipPn_tkipIv (pn dot11txpn : BitVec 64) (keyidx : Byte) :
    (getTkipPn (tkipIv pn keyidx).1 dot11txpn).setWidth 48 = (tkipIv pn keyidx).2.setWidth 48 := by
  have hbytes : ∃ p, p = (tkipIv pn keyidx).2 ∧ getTkipPn (tkipIv pn keyidx).1 dot11txpn =
      tsc dot11txpn 7 ++ tsc dot11txpn 6 ++ tsc p 5 ++ tsc p 4 ++ tsc p 3 ++ tsc p 2 ++ tsc p 1 ++
        tsc p 0 := ⟨_, rfl, rfl⟩
  obtain ⟨p, hp, hbytes⟩ := hbytes
  rw [hbytes, ← hp]
  apply BitVec.eq_of_getLsbD_eq
  intro i hi
  simp only [BitVec.getLsbD_setWidth, BitVec.getLsbD_append, hi, decide_true, Bool.true_and]
  -- a case for each byte; the two top ones are out of range
  split_ifs
  all_goals first | omega | skip
  all_goals
    rw [getLsbD_tsc _ _ (by omega)]
    congr 1
    omega

/-- `TKIP_IV` counts modulo 2^48. -/
theorem tkipIv_snd (pn : BitVec 48) (keyidx : Byte) :
    (tkipIv (pn.setWidth 64) keyidx).2 = (pn + 1).setWidth 64 := by
  have hpn := pn.isLt
  have hwide : (pn.setWidth 64).toNat = pn.toNat := by
    rw [BitVec.toNat_setWidth, Nat.mod_eq_of_lt (by omega)]
  apply BitVec.eq_of_toNat_eq
  rw [tkipIv, BitVec.toNat_setWidth, BitVec.toNat_add]
  dsimp only
  split
  case isTrue h =>
    rw [← BitVec.toNat_inj, hwide] at h
    simp [h]
  case isFalse h =>
    rw [← BitVec.toNat_inj, hwide] at h
    rw [BitVec.toNat_add, hwide]
    simp at h ⊢
    omega

theorem arcfourEncrypt_append (c : Arc4Context) (l l' : List Byte) :
    (arcfourEncrypt c (l ++ l')).1 =
      (arcfourEncrypt c l).1 ++ (arcfourEncrypt (arcfourEncrypt c l).2 l').1 := by
  rw [arcfourEncrypt, KeyStream.encrypt_append]
  rfl

theorem arcfourEncrypt_arcfourEncrypt (c : Arc4Context) (l : List Byte) :
    (arcfourEncrypt c (arcfourEncrypt c l).1).1 = l :=
  KeyStream.encrypt_encrypt _ _ _

theorem arcfourEncrypt_modify (c : Arc4Context) (l : List Byte) (i : ℕ) (d : Byte) :
    (arcfourEncrypt c (l.modify i (· ^^^ d))).1 = (arcfourEncrypt c l).1.modify i (· ^^^ d) :=
  KeyStream.encrypt_modify _ _ _ _ _

theorem length_crcBytes (c : BitVec 32) : (crcBytes c).length = 4 := length_le 4 _

/-- What the local variable holds before does not matter for the key. -/
theorem rc4Key_congr (prwskey ta : List Byte) (pn u v : BitVec 64) (keyidx : Byte) :
    rc4Key prwskey ta (tkipIv pn keyidx).1 u = rc4Key prwskey ta (tkipIv pn keyidx).1 v := by
  have h := (getTkipPn_tkipIv pn u keyidx).trans (getTkipPn_tkipIv pn v keyidx).symm
  have hbit : ∀ i < 48, (getTkipPn (tkipIv pn keyidx).1 u).getLsbD i =
      (getTkipPn (tkipIv pn keyidx).1 v).getLsbD i := by
    intro i hi
    have hi' := congrArg (·.getLsbD i) h
    simpa [hi] using hi'
  have hpnh : ((getTkipPn (tkipIv pn keyidx).1 u) >>> 16).setWidth 32 =
      ((getTkipPn (tkipIv pn keyidx).1 v) >>> 16).setWidth 32 := by
    apply BitVec.eq_of_getLsbD_eq
    intro i hi
    simp [hbit (16 + i) (by omega)]
  have hpnl : (getTkipPn (tkipIv pn keyidx).1 u).setWidth 16 =
      (getTkipPn (tkipIv pn keyidx).1 v).setWidth 16 := by
    apply BitVec.eq_of_getLsbD_eq
    intro i hi
    simp [hbit i (by omega)]
  rw [rc4Key, rc4Key, hpnh, hpnl]

/-- The byte of the table for which `t` is the top byte of the entry: eight turns backwards. -/
def crc32Index (t : Byte) : Byte :=
  let back (c : BitVec 32) : BitVec 32 :=
    if c &&& 0x80000000 ≠ 0 then ((c ^^^ 0xedb88320) <<< 1) ||| 1 else c <<< 1
  (back^[8] (t.setWidth 32 <<< 24)).setWidth 8

/-- The top bytes of the table's entries are distinct. -/
theorem crc32Table_injective : Function.Injective (Crc.top ∘ crc32Table) := by
  have hindex : ∀ i : Byte, crc32Index (Crc.top (crc32Table i)) = i := by decide +kernel
  exact Function.LeftInverse.injective hindex

theorem crcBytes_injective : Function.Injective crcBytes := by
  intro c c' h
  have hle := congrArg ofLe h
  rw [crcBytes, crcBytes, ofLe_le c.isLt, ofLe_le c'.isLt] at hle
  exact BitVec.eq_of_toNat_eq hle

/-- A change of one byte changes the CRC. -/
theorem getcrc32_modify_ne {l : List Byte} {i : ℕ} (hi : i < l.length) {f : Byte → Byte}
    (hf : ∀ b, f b ≠ b) : getcrc32 (l.modify i f) ≠ getcrc32 l := by
  intro h
  rw [getcrc32, getcrc32, BitVec.not_inj] at h
  exact Crc.foldl_modify_ne crc32Table_injective _ hi hf h

/-- The comparison of the ICV, byte by byte. -/
theorem icv_iff {p c : List Byte} (hc : c.length = 4) (crc : BitVec 32) :
    ((crcBytes crc).getD 3 0 ≠ (p ++ c).getD (p.length + 4 - 1) 0 ∨
      (crcBytes crc).getD 2 0 ≠ (p ++ c).getD (p.length + 4 - 2) 0 ∨
      (crcBytes crc).getD 1 0 ≠ (p ++ c).getD (p.length + 4 - 3) 0 ∨
      (crcBytes crc).getD 0 0 ≠ (p ++ c).getD p.length 0) ↔ crcBytes crc ≠ c := by
  have hget : ∀ i < 4, (p ++ c).getD (p.length + i) 0 = c.getD i 0 := by
    intro i _
    rw [List.getD_append_right _ _ _ _ (Nat.le_add_right _ _), Nat.add_sub_cancel_left]
  rw [show p.length + 4 - 1 = p.length + 3 by omega, show p.length + 4 - 2 = p.length + 2 by omega,
    show p.length + 4 - 3 = p.length + 1 by omega, hget 3 (by decide), hget 2 (by decide),
    hget 1 (by decide), show (p ++ c).getD p.length 0 = c.getD 0 0 from hget 0 (by decide)]
  obtain ⟨a0, a1, a2, a3, ha⟩ := List.length_eq_four.mp (length_crcBytes crc)
  obtain ⟨c0, c1, c2, c3, rfl⟩ := List.length_eq_four.mp hc
  rw [ha]
  simp
  tauto

/-! ## Main results -/

/-- A packet attribute as it is filled in for TKIP. -/
structure TkipAttrib extends PktAttrib where
  encrypt_eq : encrypt = .tkip
  ivLen_eq : ivLen = 8
  icvLen_eq : icvLen = 4

/-- An MPDU to be encrypted, with its header, the packet number before it, and room for the ICV. -/
structure Mpdu (hdrlen : ℕ) where
  hdr : Vector Byte hdrlen
  dot11txpn : BitVec 48
  keyidx : Byte
  payload : List Byte
  room : Vector Byte 4

namespace Mpdu

variable {hdrlen : ℕ} (m : Mpdu hdrlen)

/-- The header and `TKIP_IV`. -/
def head : List Byte := m.hdr.toList ++ (tkipIv (m.dot11txpn.setWidth 64) m.keyidx).1

/-- The MPDU before encryption. -/
def bytes : List Byte := m.head ++ (m.payload ++ m.room.toList)

/-- The MPDU after decryption. -/
def plain : List Byte := m.head ++ (m.payload ++ crcBytes (getcrc32 m.payload))

theorem length_head : m.head.length = hdrlen + 8 := by
  rw [head, List.length_append, Vector.length_toList]
  rfl

theorem slice_iv (b : List Byte) :
    slice (m.head ++ b) hdrlen 8 = (tkipIv (m.dot11txpn.setWidth 64) m.keyidx).1 := by
  rw [head, List.append_assoc]
  exact slice_middle Vector.length_toList rfl

end Mpdu

section

variable {priv : SecurityPriv} {a : TkipAttrib} {u : BitVec 64} (m : Mpdu a.hdrlen)

/-- The RC4 state for an MPDU. -/
def context (key ta : List Byte) (u : BitVec 64) {hdrlen : ℕ} (m : Mpdu hdrlen) : Arc4Context :=
  arcfourInit (rc4Key key ta (tkipIv (m.dot11txpn.setWidth 64) m.keyidx).1 u) 16

/-- Payload and ICV are encrypted in one go. -/
theorem encryptFrag_bytes (key : List Byte) :
    encryptFrag a.toPktAttrib key u m.bytes = m.head ++
      (arcfourEncrypt (context key a.ta u m) (m.payload ++ crcBytes (getcrc32 m.payload))).1 := by
  have hhead : m.head.length = 8 + a.hdrlen := by rw [m.length_head, Nat.add_comm]
  have hlen : m.bytes.length - a.hdrlen - 8 - 4 = m.payload.length := by
    rw [Mpdu.bytes, List.length_append, List.length_append, Vector.length_toList, hhead]
    omega
  have hpayload : slice m.bytes (8 + a.hdrlen) m.payload.length = m.payload :=
    slice_middle hhead rfl
  have hiv : slice m.bytes a.hdrlen 8 = (tkipIv (m.dot11txpn.setWidth 64) m.keyidx).1 :=
    m.slice_iv _
  rw [encryptFrag]
  dsimp only
  rw [a.ivLen_eq, a.icvLen_eq, hlen, hpayload, hiv, Mpdu.bytes]
  set c := arcfourEncrypt (context key a.ta u m) m.payload with hc
  have hc1 : c.1.length = m.payload.length := KeyStream.length_encrypt _ _ _
  have hcrc : (arcfourEncrypt c.2 (crcBytes (getcrc32 m.payload))).1.length = 4 := by
    rw [arcfourEncrypt, KeyStream.length_encrypt, length_crcBytes]
  change memcpy (memcpy _ _ c.1) _ (arcfourEncrypt c.2 _).1 = _
  rw [memcpy_middle hhead hc1.symm, ← List.append_assoc, memcpy_last, arcfourEncrypt_append, ← hc,
    List.append_assoc]
  · rw [List.length_append, hhead, hc1]
  · rw [Vector.length_toList, hcrc]

/-- The receiver has the key, and the attributes of the frame are those of the sender. -/
structure Receives (priv : SecurityPriv) (a : PktAttrib) (rx : Receiver) (b : RxPktAttrib) :
    Prop where
  encrypt : b.encrypt = .tkip
  key : rxKey rx b = some (txKey priv a)
  ta : b.ta = a.ta
  hdrlen : b.hdrlen = a.hdrlen
  ivLen : b.ivLen = 8

/-- What a receiver with the key does with an MPDU, by what its encrypted part decrypts to. -/
theorem Receives.rtwTkipDecrypt_eq {rx : Receiver} {b : RxPktAttrib}
    (h : Receives priv a.toPktAttrib rx b) {p c body : List Byte} (hc : c.length = 4)
    (hbody : (arcfourEncrypt (context (txKey priv a.toPktAttrib) a.ta u m) body).1 = p ++ c) :
    rtwTkipDecrypt rx b u (m.head ++ body) =
      (if crcBytes (getcrc32 p) = c then .success else .fail, m.head ++ (p ++ c)) := by
  have hhead : m.head.length = 8 + a.hdrlen := by rw [m.length_head, Nat.add_comm]
  have hlen : body.length = p.length + 4 := by
    have h := congrArg List.length hbody
    rwa [arcfourEncrypt, KeyStream.length_encrypt, List.length_append, hc] at h
  have hlength : (m.head ++ body).length - a.hdrlen - 8 = p.length + 4 := by
    rw [List.length_append, hhead, hlen]
    omega
  have hpayload : slice (m.head ++ body) (8 + a.hdrlen) (p.length + 4) = body :=
    slice_last hhead hlen
  have hdec : (arcfourEncrypt (arcfourInit (rc4Key (txKey priv a.toPktAttrib) a.ta
      (tkipIv (m.dot11txpn.setWidth 64) m.keyidx).1 u) 16) body).1 = p ++ c := hbody
  rw [rtwTkipDecrypt, h.encrypt, h.key]
  dsimp only
  rw [h.hdrlen, h.ivLen, h.ta, hlength, hpayload, m.slice_iv, hdec, Nat.add_sub_cancel,
    List.take_left, memcpy_last hhead (by rw [List.length_append, hc, hlen])]
  congr 1
  by_cases hicv : crcBytes (getcrc32 p) = c
  · rw [if_pos hicv, if_neg (mt (icv_iff hc _).mp (not_not.mpr hicv))]
  · rw [if_neg hicv, if_pos ((icv_iff hc _).mpr hicv)]

end

/-- A change of a byte of payload or ICV breaks the ICV. -/
theorem icv_modify_ne {payload : List Byte} {i : ℕ} (hi : i < payload.length + 4) {f : Byte → Byte}
    (hf : ∀ b, f b ≠ b) :
    ∃ p c, c.length = 4 ∧ p ++ c = (payload ++ crcBytes (getcrc32 payload)).modify i f ∧
      crcBytes (getcrc32 p) ≠ c := by
  have hcrc := length_crcBytes (getcrc32 payload)
  obtain hp | hp := Nat.lt_or_ge i payload.length
  case inl =>
    refine ⟨payload.modify i f, crcBytes (getcrc32 payload), hcrc, ?_, ?_⟩
    · rw [modify_append_left hp]
    · exact fun h => getcrc32_modify_ne hp hf (crcBytes_injective h)
  case inr =>
    obtain ⟨k, rfl⟩ := Nat.exists_eq_add_of_le hp
    refine ⟨payload, (crcBytes (getcrc32 payload)).modify k f, ?_, ?_, ?_⟩
    · rw [List.length_modify, hcrc]
    · rw [modify_append_right]
    · intro h
      have hk : k < (crcBytes (getcrc32 payload)).length := by omega
      have hget := congrArg (·[k]?) h
      rw [List.getElem?_modify_eq, List.getElem?_eq_getElem hk] at hget
      exact hf _ (Option.some.inj hget).symm

/-- A receiver with the key reads the packet number that follows the last one, restores the payload
and finds its ICV; if a byte of payload or ICV is changed on the way by `d`, so is the decrypted
byte, and the ICV does not match. -/
theorem tkip_ok (priv : SecurityPriv) (a : TkipAttrib) (rx : Receiver) (b : RxPktAttrib)
    (h : Receives priv a.toPktAttrib rx b) (u v : BitVec 64) (mpdus : List (Mpdu a.hdrlen)) :
    List.Forall₂
      (fun (m : Mpdu a.hdrlen) f =>
        (getTkipPn (slice f b.hdrlen 8) v).setWidth 48 = m.dot11txpn + 1 ∧
        rtwTkipDecrypt rx b v f = (.success, m.plain) ∧
        ∀ i < m.payload.length + 4, ∀ d ≠ 0,
          rtwTkipDecrypt rx b v (f.modify (b.hdrlen + 8 + i) (· ^^^ d)) =
            (.fail, m.plain.modify (b.hdrlen + 8 + i) (· ^^^ d)))
      mpdus (rtwTkipEncrypt priv a.toPktAttrib u (mpdus.map Mpdu.bytes)) := by
  rw [rtwTkipEncrypt, a.encrypt_eq]
  dsimp only
  rw [List.map_map, List.forall₂_map_right_iff]
  apply List.forall₂_same.mpr
  intro m _
  have hctx : context (txKey priv a.toPktAttrib) a.ta u m =
      context (txKey priv a.toPktAttrib) a.ta v m := by
    rw [context, context, rc4Key_congr]
  rw [Function.comp_apply, encryptFrag_bytes, hctx, h.hdrlen]
  refine ⟨?_, ?_, ?_⟩
  · rw [m.slice_iv, getTkipPn_tkipIv, tkipIv_snd, BitVec.setWidth_setWidth_of_le _ (by decide),
      BitVec.setWidth_eq]
  · rw [h.rtwTkipDecrypt_eq m (length_crcBytes _) (arcfourEncrypt_arcfourEncrypt _ _), if_pos rfl]
    rfl
  · intro i hi d hd
    have hf : ∀ b : Byte, b ^^^ d ≠ b := by
      intro b hb
      rw [← BitVec.xor_zero (x := b), BitVec.xor_assoc, BitVec.xor_right_inj] at hb
      simp_all
    obtain ⟨p, c, hc, hpc, hne⟩ := icv_modify_ne hi hf
    rw [← m.length_head, modify_append_right, Mpdu.plain, modify_append_right, ← hpc,
      ← arcfourEncrypt_modify, ← hpc,
      h.rtwTkipDecrypt_eq m hc (arcfourEncrypt_arcfourEncrypt _ _), if_neg hne]

/-- A unicast data frame of three bytes. -/
def dataAttrib : TkipAttrib where
  encrypt := .tkip
  ra := [0x10, 0x22, 0x33, 0x44, 0x55, 0x66]
  ta := [0x20, 0x22, 0x33, 0x44, 0x55, 0x66]
  hdrlen := 24
  ivLen := 8
  icvLen := 4
  dot118021xUncstKey := List.replicate 16 7
  encrypt_eq := rfl
  ivLen_eq := rfl
  icvLen_eq := rfl

def dataMpdu : Mpdu 24 := ⟨Vector.replicate 24 0, 0xffff, 0, [1, 2, 3], Vector.replicate 4 0⟩

/-- A security context without group keys, and a receiver that knows the transmitter's key. -/
def initPriv : SecurityPriv := ⟨fun _ => [], 0, false⟩

def dataReceiver : Receiver := ⟨initPriv, fun _ => some (List.replicate 16 7)⟩

def dataRxAttrib : RxPktAttrib := ⟨.tkip, dataAttrib.ra, dataAttrib.ta, 24, 8, 0⟩

theorem tkip_ok_dataMpdu :
    (rtwTkipDecrypt dataReceiver dataRxAttrib 0
      ((rtwTkipEncrypt initPriv dataAttrib.toPktAttrib 0 [dataMpdu.bytes]).headD [])).1 =
        .success := by
  have h := tkip_ok initPriv dataAttrib dataReceiver dataRxAttrib ⟨rfl, rfl, rfl, rfl, rfl⟩ 0 0
    [dataMpdu]
  exact congrArg Prod.fst (List.forall₂_cons.mp h).1.2.1

end Rtl88x2cu.Core.Tkip
