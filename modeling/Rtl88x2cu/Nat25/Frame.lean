import Mathlib.Algebra.Order.Ring.Nat
import Mathlib.Data.Fintype.Pi
import Mathlib.Data.List.FinRange
import Rtl88x2cu.EthAddr
import Rtl88x2cu.Lib.OnesComplement

/-!
# Frames and network addresses of the bridge extension

The bytes of a frame (`struct sk_buff`), and the keys of the NAT2.5 database
(`core/rtw_br_ext.c`), which pack the network addresses of several protocols into 17 bytes.
-/

namespace Rtl88x2cu.Nat25

open Bytes (Byte)
open OnesComplement (Endian)

/-! ## Frames -/

/-- `struct sk_buff`: the memory from `skb->data` on, and `skb->len`. -/
structure Skb where
  data : ℕ → Byte
  len : ℕ

/-- An IPv4 address, as it is in the frame. -/
abbrev Ip := Fin 4 → Byte

/-- `0.0.0.0`. -/
def zeroIp : Ip := fun _ => 0

/-- The IPv6 address `::`. -/
def zeroIpv6 : List Byte := List.replicate 16 0

namespace Skb

/-- `n` bytes from the offset `off` on. -/
def bytes (f : Skb) (off n : ℕ) : List Byte := (List.range n).map fun i => f.data (off + i)

/-- Read a MAC address. -/
def mac (f : Skb) (off : ℕ) : EthAddr :=
  { o0 := f.data off
    o1 := f.data (off + 1)
    o2 := f.data (off + 2)
    o3 := f.data (off + 3)
    o4 := f.data (off + 4)
    o5 := f.data (off + 5) }

/-- Write a MAC address. -/
def setMac (f : Skb) (off : ℕ) (a : EthAddr) : Skb :=
  { f with
    data := fun i =>
      if i = off then a.o0
      else if i = off + 1 then a.o1
      else if i = off + 2 then a.o2
      else if i = off + 3 then a.o3
      else if i = off + 4 then a.o4
      else if i = off + 5 then a.o5
      else f.data i }

/-- Read an IPv4 address. -/
def ip (f : Skb) (off : ℕ) : Ip := fun i => f.data (off + i)

/-- A 16-bit field in network order. -/
def be16 (f : Skb) (off : ℕ) : ℕ := 256 * (f.data off).toNat + (f.data (off + 1)).toNat

/-- A 16-bit field, as the host loads it. -/
def load (e : Endian) (f : Skb) (off : ℕ) : BitVec 16 := e.load (f.data off) (f.data (off + 1))

/-- Write a 16-bit field. -/
def store (e : Endian) (f : Skb) (off : ℕ) (v : BitVec 16) : Skb :=
  { f with
    data := fun i => if i = off then e.fst v else if i = off + 1 then e.snd v else f.data i }

/-- The destination address. -/
def da (f : Skb) : EthAddr := f.mac 0

/-- The source address. -/
def sa (f : Skb) : EthAddr := f.mac 6

/-- The protocol field, behind the two addresses. -/
def protocol (f : Skb) : ℕ := f.be16 12

@[simp]
theorem load_store (e : Endian) (f : Skb) (off : ℕ) (v : BitVec 16) :
    (f.store e off v).load e off = v := by
  simp [load, store]

@[simp]
theorem len_store (e : Endian) (f : Skb) (off : ℕ) (v : BitVec 16) :
    (f.store e off v).len = f.len := rfl

theorem data_store_of_ne (e : Endian) (f : Skb) {off i : ℕ} (v : BitVec 16) (h : i ≠ off)
    (h' : i ≠ off + 1) : (f.store e off v).data i = f.data i := by
  simp [store, h, h']

theorem be16_eq_load (f : Skb) (off : ℕ) : f.be16 off = (f.load .big off).toNat :=
  (Endian.toNat_load_big _ _).symm

/-- A field in the order of the host is one of the network, up to the factor of the host. -/
theorem load_modEq (e : Endian) (f : Skb) (off : ℕ) :
    (f.load e off).toNat ≡ e.scale * f.be16 off [MOD 65535] := by
  rw [be16_eq_load]
  exact Endian.load_modEq e _ _

theorem bytes_add (f : Skb) (off m n : ℕ) :
    f.bytes off (m + n) = f.bytes off m ++ f.bytes (off + m) n := by
  simp only [bytes, List.range_add, List.map_append, List.map_map, Function.comp_def, Nat.add_assoc]

theorem bytes_succ (f : Skb) (off n : ℕ) :
    f.bytes off (n + 1) = f.data off :: f.bytes (off + 1) n := by
  rw [Nat.add_comm, bytes_add]
  rfl

@[simp]
theorem length_bytes (f : Skb) (off n : ℕ) : (f.bytes off n).length = n := by
  rw [bytes, List.length_map, List.length_range]

theorem bytes_congr {f g : Skb} {off n : ℕ}
    (h : ∀ i, off ≤ i → i < off + n → g.data i = f.data i) : g.bytes off n = f.bytes off n := by
  refine List.map_congr_left fun i hi => ?_
  exact h _ (Nat.le_add_right _ _) (Nat.add_lt_add_left (List.mem_range.mp hi) off)

theorem data_setMac_of_lt (f : Skb) {off i : ℕ} (a : EthAddr) (h : i < off) :
    (f.setMac off a).data i = f.data i := by
  have hne (n : ℕ) : i ≠ off + n := by omega
  simp [setMac, hne, Nat.ne_of_lt h]

theorem data_setMac_of_le (f : Skb) {off i : ℕ} (a : EthAddr) (h : off + 6 ≤ i) :
    (f.setMac off a).data i = f.data i := by
  have hne {n : ℕ} (hn : n < 6) : i ≠ off + n := by omega
  simp [setMac, hne, show i ≠ off by omega]

@[simp]
theorem mac_setMac (f : Skb) (off : ℕ) (a : EthAddr) : (f.setMac off a).mac off = a := by
  simp [mac, setMac]

/-- A write behind the address leaves it alone. -/
theorem mac_setMac_of_le (f : Skb) {off off' : ℕ} (a : EthAddr) (h : off' + 6 ≤ off) :
    (f.setMac off a).mac off' = f.mac off' := by
  simp (disch := omega) [mac, data_setMac_of_lt]

@[simp]
theorem len_setMac (f : Skb) (off : ℕ) (a : EthAddr) : (f.setMac off a).len = f.len := rfl

/-- A VLAN tag is taken out: the addresses are moved up, and `skb_pull` drops four bytes. -/
def vlanPull (f : Skb) : Skb :=
  let data := fun i => if 4 ≤ i ∧ i < 16 then f.data (i - 4) else f.data i
  if 4 ≤ f.len then { data := fun i => data (i + 4), len := f.len - 4 } else { f with data := data }

/-- A VLAN tag is put in again: `skb_push` makes room, and the addresses are moved down. -/
def vlanPush (f : Skb) (h₀ h₁ : Byte) : Skb :=
  { data := fun i =>
      if i < 12 then f.data i
      else if i = 12 then 0x81
      else if i = 13 then 0x00
      else if i = 14 then h₀
      else if i = 15 then h₁
      else f.data (i - 4)
    len := f.len + 4 }

/-- A tag does not change the destination. -/
@[simp]
theorem da_vlanPush (f : Skb) (h₀ h₁ : Byte) : (f.vlanPush h₀ h₁).da = f.da := by
  simp [da, mac, vlanPush]

end Skb

/-! ## Protocols -/

def ethPIp : ℕ := 0x0800

def ethPArp : ℕ := 0x0806

def ethP8021q : ℕ := 0x8100

def ethPIpx : ℕ := 0x8137

def ethPAtalk : ℕ := 0x809B

def ethPAarp : ℕ := 0x80F3

def ethPPppDisc : ℕ := 0x8863

def ethPPppSes : ℕ := 0x8864

def ethPIpv6 : ℕ := 0x86DD

/-- `sizeof(struct ethhdr)`. -/
def ethHlen : ℕ := 14

/-! ## Network addresses -/

/-- The key of a database entry, `MAX_NETWORK_ADDR_LEN` bytes. -/
abbrev NetworkAddr := Fin 17 → Byte

/-- A network address of the given type, with `bytes` from the index `off` on, else zeros. -/
def ofBytes (type : Byte) (off : ℕ) (bytes : List Byte) : NetworkAddr := fun i =>
  if i = 0 then type else if off ≤ i then bytes.getD (i - off) 0 else 0

def nat25Ipv4 : Byte := 1

def nat25Ipv6 : Byte := 2

def nat25Ipx : Byte := 3

def nat25Apple : Byte := 4

def nat25Pppoe : Byte := 5

/-- `__nat25_generate_ipv4_network_addr`. -/
def ipv4NetworkAddr (ipAddr : Ip) : NetworkAddr := ofBytes nat25Ipv4 7 (List.ofFn ipAddr)

/-- `__nat25_generate_ipx_network_addr_with_node`. -/
def ipxNetworkAddrWithNode (ipxNetAddr ipxNodeAddr : List Byte) : NetworkAddr :=
  ofBytes nat25Ipx 1 (ipxNetAddr ++ ipxNodeAddr)

/-- `__nat25_generate_ipx_network_addr_with_socket`. -/
def ipxNetworkAddrWithSocket (ipxNetAddr ipxSocketAddr : List Byte) : NetworkAddr :=
  ofBytes nat25Ipx 1 (ipxNetAddr ++ ipxSocketAddr)

/-- `__nat25_generate_apple_network_addr`. -/
def appleNetworkAddr (network node : List Byte) : NetworkAddr :=
  ofBytes nat25Apple 1 (network ++ node)

/-- `__nat25_generate_pppoe_network_addr`. -/
def pppoeNetworkAddr (acMac sid : List Byte) : NetworkAddr := ofBytes nat25Pppoe 1 (sid ++ acMac)

/-- `__nat25_generate_ipv6_network_addr`. -/
def ipv6NetworkAddr (ipAddr : List Byte) : NetworkAddr := ofBytes nat25Ipv6 1 ipAddr

/-- The exclusive or of some bytes of a network address. -/
def xorAt (na : NetworkAddr) (is : List (Fin 17)) : Byte := is.foldl (fun x i => x ^^^ na i) 0

/-- `__nat25_network_hash`. The mask with `NAT25_HASH_SIZE - 1` is a remainder. -/
def networkHash (na : NetworkAddr) : Fin 16 :=
  let x :=
    if na 0 = nat25Ipv4 then xorAt na [7, 8, 9, 10]
    else if na 0 = nat25Ipx then xorAt na [1, 2, 3, 4, 5, 6, 7, 8, 9, 10]
    else if na 0 = nat25Apple then xorAt na [1, 2, 3]
    else if na 0 = nat25Pppoe then xorAt na [0, 1, 2, 3, 4, 5, 6, 7, 8]
    else if na 0 = nat25Ipv6 then
      xorAt na [1, 2, 3, 4, 5, 6, 7, 8, 9, 10, 11, 12, 13, 14, 15, 16]
    else xorAt na (List.finRange 17)
  Fin.ofNat 16 x.toNat

end Rtl88x2cu.Nat25
