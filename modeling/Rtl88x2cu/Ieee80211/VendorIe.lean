import Mathlib.Algebra.Order.Ring.Nat
import Rtl88x2cu.Ieee80211.Ie
import Rtl88x2cu.Lib.Walker

/-!
# Searching vendor elements and their attributes

`rtw_get_wps_ie`, `rtw_get_p2p_ie` and `rtw_get_wfd_ie` search a buffer for a vendor element,
`rtw_get_wps_attr`, `rtw_get_p2p_attr` and `rtw_get_wfd_attr` search such an element for an
attribute, and the `_content` forms return the data of the attribute (`core/rtw_ieee80211.c`).
-/

namespace Rtl88x2cu.Ieee80211.VendorIe

open Bytes Tlv Walker

/-! ## Model -/

/-- What a search finds: the pointer that it returns, the length that it stores, and the bytes that
it copies if it is given a buffer for them. -/
structure Found where
  ptr : ℕ
  len : ℕ
  copy : List Byte
deriving DecidableEq, Repr

/-- `if (buf) _rtw_memcpy(buf, mem + off, len)`. -/
def copyOf (buf : Bool) (mem : List Byte) (off len : ℕ) : Option (List Byte) :=
  if buf then (if off + len ≤ mem.length then some (slice mem off len) else none) else some []

def maxIeSz : ℕ := 768

/-! ### Elements -/

/-- An iteration of the finders. -/
def ieStep (oui in_ie : List Byte) (in_len : ℕ) (buf : Bool) (cnt : ℕ) :
    Option (Next (Option Found)) :=
  if cnt + 1 + 4 < in_len then
    if cnt + 1 + 4 ≥ maxIeSz then some (.done none)
    else do
      let found ← isVendorIe oui in_ie cnt
      let length ← in_ie[cnt + 1]?
      if found then
        (copyOf buf in_ie cnt (length.toNat + 2)).map fun copy =>
          .done (some ⟨cnt, length.toNat + 2, copy⟩)
      else some (.goto (cnt + (length.toNat + 2)))
  else some (.done none)

/-- The finders, for the OUI and type that they search for; `in_ie` may be `NULL`. -/
def getVendorIe (oui : List Byte) (n : ℕ) (in_ie : Option (List Byte)) (in_len : ℤ) (buf : Bool) :
    Option (Option Found) :=
  match in_ie with
  | none => some none
  | some in_ie =>
    if in_len ≤ 0 then some none else walk (ieStep oui in_ie in_len.toNat buf) n 0

def wpsOui : List Byte := [0x00, 0x50, 0xf2, 0x04]

def p2pOui : List Byte := [0x50, 0x6F, 0x9A, 0x09]

def wfdOui : List Byte := [0x50, 0x6F, 0x9A, 0x0A]

/-- `rtw_get_wps_ie`; here the length is unsigned. -/
def rtwGetWpsIe (n : ℕ) (in_ie : Option (List Byte)) (in_len : ℕ) (wps_ie : Bool) :
    Option (Option Found) :=
  getVendorIe wpsOui n in_ie in_len wps_ie

/-- `rtw_get_p2p_ie`. -/
def rtwGetP2pIe (n : ℕ) (in_ie : Option (List Byte)) (in_len : ℤ) (p2p_ie : Bool) :
    Option (Option Found) :=
  getVendorIe p2pOui n in_ie in_len p2p_ie

/-- `rtw_get_wfd_ie`. -/
def rtwGetWfdIe (n : ℕ) (in_ie : Option (List Byte)) (in_len : ℤ) (wfd_ie : Bool) :
    Option (Option Found) :=
  getVendorIe wfdOui n in_ie in_len wfd_ie

/-! ### Attributes -/

/-- `RTW_GET_BE16`. -/
def getBe16 (mem : List Byte) (p : ℕ) : Option ℕ := do
  let b0 ← mem[p]?
  let b1 ← mem[p + 1]?
  some (b0.toNat * 256 + b1.toNat)

/-- `RTW_GET_LE16`. -/
def getLe16 (mem : List Byte) (p : ℕ) : Option ℕ := do
  let b0 ← mem[p]?
  let b1 ← mem[p + 1]?
  some (b1.toNat * 256 + b0.toNat)

/-- The byte order of the length of an attribute. -/
inductive Order
  | le
  | be
deriving DecidableEq, Repr

/-- The macro that reads it. -/
def Order.get16 : Order → List Byte → ℕ → Option ℕ
  | .le => getLe16
  | .be => getBe16

/-- `attr_data_len + hdr` in an `u16`. -/
def attrLen (hdr dataLen : ℕ) : ℕ := (dataLen + hdr) % 65536

/-- An iteration of `rtw_get_wps_attr`. -/
def wpsAttrStep (wps_ie : List Byte) (wps_ielen : ℕ)
    (target_attr_id : BitVec 16) (buf_attr : Bool) (p : ℕ) :
    Option (Next (Option Found)) :=
  if p < wps_ielen then do
    let attr_id ← getBe16 wps_ie p
    let attr_data_len ← getBe16 wps_ie (p + 2)
    if attr_id = target_attr_id.toNat then
      (copyOf buf_attr wps_ie p (attrLen 4 attr_data_len)).map fun copy =>
        .done (some ⟨p, attrLen 4 attr_data_len, copy⟩)
    else some (.goto (p + attrLen 4 attr_data_len))
  else some (.done none)

/-- `rtw_get_wps_attr`. -/
def rtwGetWpsAttr (n : ℕ) (wps_ie : List Byte) (wps_ielen : ℕ)
    (target_attr_id : BitVec 16) (buf_attr : Bool) : Option (Option Found) := do
  let found ← isVendorIe wpsOui wps_ie 0
  if !found then some none else walk (wpsAttrStep wps_ie wps_ielen target_attr_id buf_attr) n 6

/-- An iteration of `rtw_get_p2p_attr` and of `rtw_get_wfd_attr`, which differ in the order of the
length. -/
def wfaAttrStep (o : Order) (ie : List Byte) (ielen : ℕ) (target_attr_id : Byte) (buf_attr : Bool)
    (p : ℕ) : Option (Next (Option Found)) :=
  if p + 3 ≤ ielen then do
    let attr_id ← ie[p]?
    let attr_data_len ← o.get16 ie (p + 1)
    if p + attrLen 3 attr_data_len > ielen then some (.done none)
    else if attr_id = target_attr_id then
      (copyOf buf_attr ie p (attrLen 3 attr_data_len)).map fun copy =>
        .done (some ⟨p, attrLen 3 attr_data_len, copy⟩)
    else some (.goto (p + attrLen 3 attr_data_len))
  else some (.done none)

/-- `rtw_get_p2p_attr` and `rtw_get_wfd_attr`, for the OUI and type of the element. -/
def getWfaAttr (oui : List Byte) (o : Order) (n : ℕ) (ie : Option (List Byte)) (ielen : ℕ)
    (target_attr_id : Byte) (buf_attr : Bool) : Option (Option Found) :=
  match ie with
  | none => some none
  | some ie =>
    if ielen ≤ 6 then some none
    else do
      let found ← isVendorIe oui ie 0
      if !found then some none
      else walk (wfaAttrStep o ie ielen target_attr_id buf_attr) n 6

/-- `rtw_get_p2p_attr`. -/
def rtwGetP2pAttr (n : ℕ) (p2p_ie : Option (List Byte)) (p2p_ielen : ℕ) (target_attr_id : Byte)
    (buf_attr : Bool) : Option (Option Found) :=
  getWfaAttr p2pOui .le n p2p_ie p2p_ielen target_attr_id buf_attr

/-- `rtw_get_wfd_attr`. -/
def rtwGetWfdAttr (n : ℕ) (wfd_ie : Option (List Byte)) (wfd_ielen : ℕ) (target_attr_id : Byte)
    (buf_attr : Bool) : Option (Option Found) :=
  getWfaAttr wfdOui .be n wfd_ie wfd_ielen target_attr_id buf_attr

/-- The `_content` forms, behind the search for the attribute: the length is an `u32`. -/
def attrContent (hdr : ℕ) (ie : List Byte) (buf_content : Bool) (attr : Option Found) :
    Option (Option Found) :=
  match attr with
  | none => some none
  | some attr =>
    if attr.len = 0 then some none
    else
      (copyOf buf_content ie (attr.ptr + hdr) ((attr.len + 2 ^ 32 - hdr) % 2 ^ 32)).map fun copy =>
        some ⟨attr.ptr + hdr, (attr.len + 2 ^ 32 - hdr) % 2 ^ 32, copy⟩

/-- `rtw_get_wps_attr_content`. -/
def rtwGetWpsAttrContent (n : ℕ) (wps_ie : List Byte) (wps_ielen : ℕ)
    (target_attr_id : BitVec 16) (buf_content : Bool) : Option (Option Found) :=
  (rtwGetWpsAttr n wps_ie wps_ielen target_attr_id false).bind (attrContent 4 wps_ie buf_content)

/-- `rtw_get_p2p_attr_content`. -/
def rtwGetP2pAttrContent (n : ℕ) (p2p_ie : List Byte) (p2p_ielen : ℕ) (target_attr_id : Byte)
    (buf_content : Bool) : Option (Option Found) :=
  (rtwGetP2pAttr n (some p2p_ie) p2p_ielen target_attr_id false).bind
    (attrContent 3 p2p_ie buf_content)

/-- `rtw_get_wfd_attr_content`. -/
def rtwGetWfdAttrContent (n : ℕ) (wfd_ie : List Byte) (wfd_ielen : ℕ) (target_attr_id : Byte)
    (buf_content : Bool) : Option (Option Found) :=
  (rtwGetWfdAttr n (some wfd_ie) wfd_ielen target_attr_id false).bind
    (attrContent 3 wfd_ie buf_content)

end Rtl88x2cu.Ieee80211.VendorIe
