import Rtl88x2cu.Lib.Tlv

/-!
# Information elements

A buffer of information elements (`core/rtw_ieee80211.c`): each has an identifier byte, a length
byte and a body. A read outside the buffer has no outcome.
-/

namespace Rtl88x2cu.Ieee80211

open Bytes Tlv

/-- The format of `NDIS_802_11_VARIABLE_IEs`. -/
def ieFormat : Format Byte where
  hdr id n := [id, BitVec.ofNat 8 n]
  hlen := 2
  length_hdr _ _ := rfl
  maxBody := 255

abbrev Ie := Elem Byte

/-- `_VENDOR_SPECIFIC_IE_`, `WLAN_EID_VENDOR_SPECIFIC`. -/
def vendorSpecificIe : Byte := 0xDD

/-- `_rtw_memcmp(buf + off, pat, sizeof(pat))`. -/
def memcmp (buf : List Byte) (off : ℕ) (pat : List Byte) : Option Bool :=
  if off + pat.length ≤ buf.length then some (slice buf off pat.length == pat) else none

/-- `ElementID == _VENDOR_SPECIFIC_IE_ && _rtw_memcmp(data, oui, sizeof(oui))` of the element at
`p`. -/
def isVendorIe (oui in_ie : List Byte) (p : ℕ) : Option Bool := do
  let eid ← in_ie[p]?
  if eid = vendorSpecificIe then memcmp in_ie (p + 2) oui else some false

/-- A comparison behind a part of the buffer. -/
theorem memcmp_append (a b pat : List Byte) (off : ℕ) :
    memcmp (a ++ b) (a.length + off) pat = memcmp b off pat := by
  rw [memcmp, memcmp, slice_append_right, List.length_append, Nat.add_assoc]
  exact if_congr (by omega) rfl rfl

/-- A comparison that stays inside the buffer. -/
theorem memcmp_of_le {buf pat : List Byte} {off : ℕ} (h : off + pat.length ≤ buf.length) :
    memcmp buf off pat = some (slice buf off pat.length == pat) := if_pos h

theorem memcmp_of_lt {buf pat : List Byte} {off : ℕ} (h : buf.length < off + pat.length) :
    memcmp buf off pat = none := if_neg (Nat.not_le.mpr h)

section Read

variable (a : List Byte) (e : Ie) (es : List Ie)

/-- The identifier of the element at the end of the part in front of it. -/
theorem read_id : (a ++ ieFormat.encode (e :: es))[a.length]? = some e.id := by
  rw [read_append_zero]
  rfl

/-- Its length byte. -/
theorem read_length :
    (a ++ ieFormat.encode (e :: es))[a.length + 1]? = some (BitVec.ofNat 8 e.body.length) := by
  rw [read_append]
  rfl

theorem toNat_length {e : Ie} (h : e.body.length ≤ 255) :
    (BitVec.ofNat 8 e.body.length).toNat = e.body.length := by
  rw [BitVec.toNat_ofNat]
  omega

/-- The bytes behind a header. -/
theorem encode_cons_drop : (ieFormat.encode (e :: es)).drop 2 = e.body ++ ieFormat.encode es := by
  rw [Format.encode_cons, Format.enc, List.append_assoc]
  rfl

theorem length_encode_cons :
    (ieFormat.encode (e :: es)).length = 2 + (e.body ++ ieFormat.encode es).length := by
  rw [Format.encode_cons, List.length_append, Format.length_enc, List.length_append, Nat.add_assoc]
  rfl

variable {oui : List Byte}

/-- The test of the OUI, at an element. -/
theorem isVendorIe_append :
    isVendorIe oui (a ++ ieFormat.encode (e :: es)) a.length
      = if e.id = vendorSpecificIe then memcmp (ieFormat.encode (e :: es)) 2 oui
        else some false := by
  rw [isVendorIe, read_id, Option.bind_eq_bind, Option.bind_some, memcmp_append]

/-- What it compares with the OUI. -/
theorem slice_oui (houi : oui.length = 4) :
    slice (ieFormat.encode (e :: es)) 2 oui.length = (e.body ++ ieFormat.encode es).take 4 := by
  rw [slice, encode_cons_drop, houi]

end Read

end Rtl88x2cu.Ieee80211
