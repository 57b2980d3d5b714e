import Mathlib.Algebra.Order.Ring.Nat
import Rtl88x2cu.Ieee80211.Ie

/-!
# Parsing the elements of a management frame

`rtw_ieee802_11_parse_elems` walks over a buffer of information elements and records where the last
element of each kind is; `rtw_get_ie` walks over one up to the first element with an identifier
(`core/rtw_ieee80211.c`).

`parseLoop_spec` says what the first loop does to any rest of the buffer, with `fill` for what it
records, and `rtwParseElems_correct` what that means for the whole buffer.
-/

namespace Rtl88x2cu.Ieee80211.ParseElems

open Bytes Tlv

/-! ## Model -/

/-- The elements that `struct rtw_ieee802_11_elems` has fields for. -/
inductive Kind
  | ssid | suppRates | fhParams | dsParams | cfParams | tim | ibssParams | challenge | erpInfo
  | extSuppRates | wpaIe | rsnIe | wme | wmeTspec | wpsIe | powerCap | suppChannels | mdie | ftie
  | timeoutInt | htCapabilities | htOperation | vendorHtCap | vhtCapabilities | vhtOperation
  | vhtOpModeNotify | rmEnCap
deriving DecidableEq, Repr

/-- `struct rtw_ieee802_11_elems`: the pointer and the length of each kind, `none` for `NULL` and
0. -/
abbrev Elems := Kind → Option (ℕ × Byte)

/-- The two fields of a kind are assigned. -/
def Elems.set (elems : Elems) (k : Kind) (pos : ℕ) (elen : Byte) : Elems :=
  fun k' => if k' = k then some (pos, elen) else elems k'

inductive ParseRes
  | ok
  | unknown
  | failed
deriving DecidableEq, Repr

/-- The cases of the `switch` on the identifier, but for `WLAN_EID_VENDOR_SPECIFIC`. -/
def idKind (id : Byte) : Option Kind :=
  match id.toNat with
  | 0 => some .ssid
  | 1 => some .suppRates
  | 2 => some .fhParams
  | 3 => some .dsParams
  | 4 => some .cfParams
  | 5 => some .tim
  | 6 => some .ibssParams
  | 16 => some .challenge
  | 42 => some .erpInfo
  | 50 => some .extSuppRates
  | 48 => some .rsnIe
  | 33 => some .powerCap
  | 36 => some .suppChannels
  | 54 => some .mdie
  | 55 => some .ftie
  | 56 => some .timeoutInt
  | 45 => some .htCapabilities
  | 61 => some .htOperation
  | 191 => some .vhtCapabilities
  | 192 => some .vhtOperation
  | 199 => some .vhtOpModeNotify
  | 70 => some .rmEnCap
  | _ => none

/-- `RTW_GET_BE24`. -/
def getBe24 (start : List Byte) (pos : ℕ) : Option ℕ := do
  let b0 ← start[pos]?
  let b1 ← start[pos + 1]?
  let b2 ← start[pos + 2]?
  some (b0.toNat * 65536 + b1.toNat * 256 + b2.toNat)

/-- `OUI_MICROSOFT` and `OUI_BROADCOM`. -/
def ouiMicrosoft : ℕ := 0x0050f2

@[inherit_doc ouiMicrosoft]
def ouiBroadcom : ℕ := 0x00904c

/-- The `switch` on the subtype of a WME element. -/
def wmeKind (start : List Byte) (pos elen : ℕ) : Option (Option Kind) :=
  if elen < 5 then some none
  else do
    let subtype ← start[pos + 4]?
    if subtype = 0 ∨ subtype = 1 then some (some .wme)
    else if subtype = 2 then some (some .wmeTspec)
    else some none

/-- The `switch` on the type of a Microsoft element. -/
def microsoftKind (start : List Byte) (pos elen : ℕ) : Option (Option Kind) := do
  let type ← start[pos + 3]?
  if type = 1 then some (some .wpaIe)
  else if type = 2 then wmeKind start pos elen
  else if type = 4 then some (some .wpsIe)
  else some none

/-- The `switch` on the type of a Broadcom element. -/
def broadcomKind (start : List Byte) (pos : ℕ) : Option (Option Kind) := do
  let type ← start[pos + 3]?
  if type = 0x33 then some (some .vendorHtCap) else some none

/-- The kind that `rtw_ieee802_11_parse_vendor_specific` assigns the fields of. -/
def vendorKind (start : List Byte) (pos elen : ℕ) : Option (Option Kind) :=
  if elen < 4 then some none
  else do
    let oui ← getBe24 start pos
    if oui = ouiMicrosoft then microsoftKind start pos elen
    else if oui = ouiBroadcom then broadcomKind start pos
    else some none

/-- `rtw_ieee802_11_parse_vendor_specific`, and whether it returns 0. -/
def parseVendorSpecific (start : List Byte) (pos : ℕ) (elen : Byte) (elems : Elems) :
    Option (Elems × Bool) :=
  (vendorKind start pos elen.toNat).map fun
    | some k => (elems.set k pos elen, true)
    | none => (elems, false)

/-- The `switch` on the identifier, and whether `unknown` is left as it is. -/
def parseElem (start : List Byte) (pos : ℕ) (id elen : Byte) (elems : Elems) :
    Option (Elems × Bool) :=
  if id = vendorSpecificIe then parseVendorSpecific start pos elen elems
  else
    match idKind id with
    | some k => some (elems.set k pos elen, true)
    | none => some (elems, false)

/-- The variables of `rtw_ieee802_11_parse_elems`. -/
structure State where
  pos : ℕ
  left : BitVec 32
  elems : Elems
  unknown : ℕ

/-- Its loop, and what is behind it. -/
def parseLoop (start : List Byte) : ℕ → State → Option (ParseRes × Elems)
  | 0, _ => none
  | n + 1, s =>
    if 2 ≤ s.left then do
      let id ← start[s.pos]?
      let elen ← start[s.pos + 1]?
      if elen.setWidth 32 > s.left - 2 then some (.failed, s.elems)
      else do
        let (elems, known) ← parseElem start (s.pos + 2) id elen s.elems
        parseLoop start n
          { pos := s.pos + 2 + elen.toNat
            left := s.left - 2 - elen.setWidth 32
            elems
            unknown := if known then s.unknown else s.unknown + 1 }
    else if s.left ≠ 0 then some (.failed, s.elems)
    else if s.unknown ≠ 0 then some (.unknown, s.elems)
    else some (.ok, s.elems)

/-- `rtw_ieee802_11_parse_elems`. -/
def rtwParseElems (n : ℕ) (start : List Byte) (len : BitVec 32) : Option (ParseRes × Elems) :=
  parseLoop start n ⟨0, len, fun _ => none, 0⟩

/-- The loop of `rtw_get_ie`. -/
def getIeLoop (pbuf : List Byte) (index : ℤ) (limit : BitVec 32) :
    ℕ → ℕ → BitVec 32 → Option (Option ℕ × ℤ)
  | 0, _, _ => none
  | n + 1, p, i => do
    let id ← pbuf[p]?
    let tmp ← pbuf[p + 1]?
    if (id.toNat : ℤ) = index then some (some p, tmp.toNat)
    else if limit.toInt ≤ (i + (tmp.setWidth 32 + 2)).toInt then some (none, 0)
    else getIeLoop pbuf index limit n (p + (tmp.toNat + 2)) (i + (tmp.setWidth 32 + 2))

/-- `rtw_get_ie`: the pointer that it returns and what it leaves in `*len`. -/
def rtwGetIe (n : ℕ) (pbuf : List Byte) (index len : ℤ) (limit : BitVec 32) :
    Option (Option ℕ × ℤ) :=
  if limit.toInt < 1 then some (none, len) else getIeLoop pbuf index limit n 0 0

/-! ## Kinds of elements -/

/-- The kind of a vendor element: its OUI and type, and for WME its subtype. -/
def vendorKindOf (body : List Byte) : Option Kind :=
  if body.take 4 = [0x00, 0x50, 0xf2, 1] then some .wpaIe
  else if body.take 4 = [0x00, 0x50, 0xf2, 2] then
    match body[4]? with
    | some subtype =>
      if subtype = 0 ∨ subtype = 1 then some .wme
      else if subtype = 2 then some .wmeTspec
      else none
    | none => none
  else if body.take 4 = [0x00, 0x50, 0xf2, 4] then some .wpsIe
  else if body.take 4 = [0x00, 0x90, 0x4c, 0x33] then some .vendorHtCap
  else none

/-- The kind of an element. -/
def kind (e : Ie) : Option Kind :=
  if e.id = vendorSpecificIe then vendorKindOf e.body else idKind e.id

/-- The fields after an element whose body is at `pos`. -/
def store (elems : Elems) (pos : ℕ) (e : Ie) : Elems :=
  match kind e with
  | some k => elems.set k pos (BitVec.ofNat 8 e.body.length)
  | none => elems

/-- The fields after the elements of a sequence that starts at `off`. -/
def fill (elems : Elems) : ℕ → List Ie → Elems
  | _, [] => elems
  | off, e :: es => fill (store elems (off + 2) e) (off + (2 + e.body.length)) es

/-! ## One element -/

section Element

variable (a : List Byte) (e : Ie) (r : List Byte)

theorem be24_inj {b0 b1 b2 : Byte} (c0 c1 c2 : Byte) :
    b0.toNat * 65536 + b1.toNat * 256 + b2.toNat = c0.toNat * 65536 + c1.toNat * 256 + c2.toNat
      ↔ b0 = c0 ∧ b1 = c1 ∧ b2 = c2 := by
  simp only [← BitVec.toNat_inj]
  omega

/-- An element with an OUI and a type is for the OUIs of Microsoft and Broadcom. -/
theorem vendorKind_eq {start : List Byte} {pos elen oui : ℕ} (helen : ¬elen < 4)
    (houi : getBe24 start pos = some oui) : vendorKind start pos elen =
      if oui = ouiMicrosoft then microsoftKind start pos elen
      else if oui = ouiBroadcom then broadcomKind start pos
      else some none := by
  rw [vendorKind, if_neg helen, houi]
  rfl

/-- The source finds the kind of a vendor element whose body is in the buffer. -/
theorem vendorKind_append (body : List Byte) :
    vendorKind (a ++ (body ++ r)) a.length body.length = some (vendorKindOf body) := by
  by_cases hshort : body.length < 4
  · -- a short body has no OUI and type
    have hne : ∀ {pat : List Byte}, pat.length = 4 → body.take 4 ≠ pat := by
      rintro pat hpat rfl
      rw [List.length_take] at hpat
      omega
    rw [vendorKind, if_pos hshort, vendorKindOf, if_neg (hne rfl), if_neg (hne rfl),
      if_neg (hne rfl), if_neg (hne rfl)]
  · obtain ⟨b0, b1, b2, b3, t, rfl⟩ : ∃ b0 b1 b2 b3 t, body = b0 :: b1 :: b2 :: b3 :: t := by
      match body, hshort with
      | [], h | [_], h | [_, _], h | [_, _, _], h => exact absurd (by simp) h
      | b0 :: b1 :: b2 :: b3 :: t, _ => exact ⟨b0, b1, b2, b3, t, rfl⟩
    have houi : getBe24 (a ++ (b0 :: b1 :: b2 :: b3 :: t ++ r)) a.length
        = some (b0.toNat * 65536 + b1.toNat * 256 + b2.toNat) := by
      rw [getBe24, read_append_zero, read_append, read_append]
      rfl
    have hmicro : (b0.toNat * 65536 + b1.toNat * 256 + b2.toNat = ouiMicrosoft)
        ↔ b0 = 0 ∧ b1 = 0x50 ∧ b2 = 0xf2 := be24_inj 0 0x50 0xf2
    have hbroad : (b0.toNat * 65536 + b1.toNat * 256 + b2.toNat = ouiBroadcom)
        ↔ b0 = 0 ∧ b1 = 0x90 ∧ b2 = 0x4c := be24_inj 0 0x90 0x4c
    rw [vendorKind_eq hshort houi]
    simp only [hmicro, hbroad, vendorKindOf,
      List.take_succ_cons, List.take_zero, List.cons.injEq, and_true]
    by_cases hm : b0 = 0 ∧ b1 = 0x50 ∧ b2 = 0xf2
    · obtain ⟨rfl, rfl, rfl⟩ := hm
      by_cases h2 : b3 = 2#8
      · -- a WME element: the subtype decides, where there is one
        subst h2
        cases t with
        | nil => simp [microsoftKind, wmeKind]
        | cons subtype t =>
          have hlt : ¬ t.length + 1 + 1 + 1 + 1 + 1 < 5 := by omega
          by_cases h01 : subtype = 0#8 ∨ subtype = 1#8
          · simp [microsoftKind, wmeKind, hlt, h01]
          · by_cases hs2 : subtype = 2#8 <;>
              simp [microsoftKind, wmeKind, hlt, h01, hs2]
      · by_cases h1 : b3 = 1#8
        · simp [microsoftKind, h1]
        · by_cases h4 : b3 = 4#8 <;>
            simp [microsoftKind, h1, h2, h4]
    · by_cases hb : b0 = 0 ∧ b1 = 0x90 ∧ b2 = 0x4c
      · obtain ⟨rfl, rfl, rfl⟩ := hb
        by_cases h33 : b3 = 51#8 <;> simp [broadcomKind, h33]
      · have h1 : ∀ c : Byte, ¬ (b0 = 0 ∧ b1 = 0x50 ∧ b2 = 0xf2 ∧ b3 = c) :=
          fun c h => hm ⟨h.1, h.2.1, h.2.2.1⟩
        have h2 : ¬ (b0 = 0 ∧ b1 = 0x90 ∧ b2 = 0x4c ∧ b3 = 0x33) :=
          fun h => hb ⟨h.1, h.2.1, h.2.2.1⟩
        simp only [if_neg hm, if_neg hb, if_neg (h1 _), if_neg h2]

/-- An element that is in the buffer is stored. -/
theorem parseElem_append (hdr : List Byte) (he : e.body.length ≤ 255) (elems : Elems) :
    ∃ known, parseElem (a ++ (hdr ++ (e.body ++ r))) (a.length + hdr.length) e.id
        (BitVec.ofNat 8 e.body.length) elems
      = some (store elems (a.length + hdr.length) e, known) := by
  rw [parseElem, store, kind]
  by_cases hv : e.id = vendorSpecificIe
  · have hkind := vendorKind_append (a ++ hdr) r e.body
    rw [List.append_assoc, List.length_append] at hkind
    rw [if_pos hv, if_pos hv, parseVendorSpecific, toNat_length he, hkind, Option.map_some]
    cases vendorKindOf e.body with
    | none => exact ⟨false, rfl⟩
    | some k => exact ⟨true, rfl⟩
  · rw [if_neg hv, if_neg hv]
    cases idKind e.id with
    | none => exact ⟨false, rfl⟩
    | some k => exact ⟨true, rfl⟩

end Element

/-! ## The loop -/

/-- The bytes are a sequence of complete elements. -/
def IsSeq (r : List Byte) : Prop := ∃ es, ieFormat.Fits es ∧ r = ieFormat.encode es

theorem isSeq_nil : IsSeq [] := ⟨[], by simp [Format.Fits], rfl⟩

/-- A header says how the bytes behind it are divided. -/
theorem eq_cons_of_encode {id elen : Byte} {t : List Byte} {es : List Ie} (hfits : ieFormat.Fits es)
    (hes : id :: elen :: t = ieFormat.encode es) :
    elen.toNat ≤ t.length ∧ ∃ es', es = ⟨id, t.take elen.toNat⟩ :: es' ∧ ieFormat.Fits es'
      ∧ t.drop elen.toNat = ieFormat.encode es' := by
  cases es with
  | nil => cases hes
  | cons e es =>
    obtain ⟨he, hfits⟩ := ieFormat.fits_cons.mp hfits
    have hcons : id :: elen :: t
        = e.id :: BitVec.ofNat 8 e.body.length :: (e.body ++ ieFormat.encode es) := by
      rw [hes, Format.encode_cons, Format.enc, List.append_assoc]
      rfl
    obtain ⟨rfl, helen, rfl⟩ : id = e.id ∧ elen = _ ∧ t = _ := by simpa using hcons
    rw [helen, toNat_length he, List.length_append, List.drop_left, List.take_left]
    exact ⟨Nat.le_add_right _ _, es, rfl, hfits, rfl⟩

theorem isSeq_cons_cons {id elen : Byte} {t : List Byte} :
    IsSeq (id :: elen :: t)
      ↔ elen.toNat ≤ t.length ∧ IsSeq (t.drop elen.toNat) := by
  constructor
  · rintro ⟨es, hfits, hes⟩
    obtain ⟨hle, es', -, hfits', hes'⟩ := eq_cons_of_encode hfits hes
    exact ⟨hle, es', hfits', hes'⟩
  · rintro ⟨hle, es, hfits, hes⟩
    have hbody : (t.take elen.toNat).length = elen.toNat := List.length_take_of_le hle
    refine ⟨⟨id, t.take elen.toNat⟩ :: es, ?_, ?_⟩
    · rw [Format.fits_cons, hbody]
      exact ⟨Nat.le_of_lt_succ elen.isLt, hfits⟩
    · rw [Format.encode_cons, Format.enc, ← hes, hbody, List.append_assoc, List.take_append_drop]
      simp [ieFormat]

theorem not_isSeq_singleton (b : Byte) : ¬ IsSeq [b] := by
  rintro ⟨es, -, hes⟩
  cases es with
  | nil => cases hes
  | cons e es =>
    have := congrArg List.length hes
    rw [Format.encode_cons, List.length_append, Format.length_enc] at this
    simp only [ieFormat, List.length_cons, List.length_nil] at this
    omega

/-- The loop, from the end of a part of the buffer on: it returns, it fails if and only if the rest
is not a sequence of elements, and else it has stored them all. The induction is on the length of
the rest. -/
theorem parseLoop_spec (n : ℕ) (a r : List Byte) (hn : r.length < n) (hlen : r.length < 2 ^ 32)
    (elems : Elems) (unknown : ℕ) :
    ∃ res elems', parseLoop (a ++ r) n ⟨a.length, BitVec.ofNat 32 r.length, elems, unknown⟩
        = some (res, elems')
      ∧ (res = .failed ↔ ¬ IsSeq r)
      ∧ ∀ es, ieFormat.Fits es → r = ieFormat.encode es → elems' = fill elems a.length es := by
  induction n generalizing a r elems unknown with
  | zero => exact absurd hn (Nat.not_lt_zero _)
  | succ n ih =>
    match r, hn, hlen with
    | [], _, _ =>
      have hfill : ∀ es, ieFormat.Fits es → [] = ieFormat.encode es →
        elems = fill elems a.length es := by
        intro es _ hes
        cases es with
        | nil => rfl
        | cons e es => cases hes
      by_cases hu : unknown = 0
      · refine ⟨.ok, elems, by simp [parseLoop, hu], ?_, hfill⟩
        exact iff_of_false (by simp) (not_not_intro isSeq_nil)
      · refine ⟨.unknown, elems, by simp [parseLoop, hu], ?_, hfill⟩
        exact iff_of_false (by simp) (not_not_intro isSeq_nil)
    | [b], _, _ =>
      refine ⟨.failed, elems, by simp [parseLoop], iff_of_true rfl (not_isSeq_singleton b), ?_⟩
      exact fun es hfits hes => absurd ⟨es, hfits, hes⟩ (not_isSeq_singleton b)
    | id :: elen :: t, hn, hlen =>
      simp only [List.length_cons] at hn hlen
      have hid : (a ++ id :: elen :: t)[a.length]? = some id := read_append_zero _ _
      have helen : (a ++ id :: elen :: t)[a.length + 1]? = some elen := read_append _ _ 1
      have htwo : 2 ≤ BitVec.ofNat 32 (t.length + 1 + 1) := by
        simp only [BitVec.le_def, BitVec.toNat_ofNat, BitVec.ofNat_eq_ofNat]
        omega
      have hleft : BitVec.ofNat 32 (t.length + 1 + 1) - 2 = BitVec.ofNat 32 t.length := by
        apply BitVec.eq_of_toNat_eq
        simp only [BitVec.toNat_sub, BitVec.toNat_ofNat, BitVec.ofNat_eq_ofNat]
        omega
      have hgt : elen.setWidth 32 > BitVec.ofNat 32 t.length ↔ t.length < elen.toNat := by
        simp only [GT.gt, BitVec.lt_def, BitVec.toNat_ofNat, BitVec.toNat_setWidth]
        omega
      rw [parseLoop, List.length_cons, List.length_cons, if_pos htwo]
      simp only [Option.bind_eq_bind, hid, helen, Option.bind_some, hleft, hgt]
      by_cases hle : elen.toNat ≤ t.length
      · -- a complete element: it is stored, and the induction takes the rest
        have hbody : (t.take elen.toNat).length = elen.toNat := List.length_take_of_le hle
        obtain ⟨known, hstore⟩ := parseElem_append a ⟨id, t.take elen.toNat⟩ (t.drop elen.toNat)
          [id, elen] (by rw [hbody]; exact Nat.le_of_lt_succ elen.isLt) elems
        rw [hbody, BitVec.ofNat_toNat, BitVec.setWidth_eq, List.take_append_drop] at hstore
        replace hstore : parseElem (a ++ id :: elen :: t) (a.length + 2) id elen elems
          = some (store elems (a.length + 2) ⟨id, t.take elen.toNat⟩, known) := hstore
        have hsplit : a ++ id :: elen :: t
            = (a ++ id :: elen :: t.take elen.toNat) ++ t.drop elen.toNat := by
          rw [List.append_assoc, List.cons_append, List.cons_append, List.take_append_drop]
        have hnext : (a ++ id :: elen :: t.take elen.toNat).length = a.length + 2 + elen.toNat := by
          rw [List.length_append, List.length_cons, List.length_cons, hbody]
          omega
        have hrest : BitVec.ofNat 32 t.length - elen.setWidth 32
            = BitVec.ofNat 32 (t.drop elen.toNat).length := by
          apply BitVec.eq_of_toNat_eq
          simp only [BitVec.toNat_sub, BitVec.toNat_ofNat, BitVec.toNat_setWidth, List.length_drop]
          omega
        obtain ⟨res, elems', hloop, hfail, hfill⟩ := ih (a ++ id :: elen :: t.take elen.toNat)
          (t.drop elen.toNat) (by rw [List.length_drop]; omega) (by rw [List.length_drop]; omega)
          (store elems (a.length + 2) ⟨id, t.take elen.toNat⟩)
          (if known then unknown else unknown + 1)
        refine ⟨res, elems', ?_, ?_, ?_⟩
        · rw [← hsplit, hnext] at hloop
          rw [if_neg (Nat.not_lt.mpr hle), hstore, Option.bind_some, hrest, hloop]
        · rw [hfail, isSeq_cons_cons]
          exact not_congr (and_iff_right hle).symm
        · intro es hfits hes
          obtain ⟨-, es', rfl, hfits', hes'⟩ := eq_cons_of_encode hfits hes
          rw [hfill es' hfits' hes', fill, hnext, hbody, Nat.add_assoc]
      · have hnot : ¬ IsSeq (id :: elen :: t) := fun h => hle (isSeq_cons_cons.mp h).1
        exact ⟨.failed, elems, if_pos (Nat.lt_of_not_le hle), iff_of_true rfl hnot,
          fun es hfits hes => absurd ⟨es, hfits, hes⟩ hnot⟩

/-! ## What is stored -/

section Fill

variable {elems : Elems} {off : ℕ} {e : Ie} {k : Kind}

theorem store_self (h : kind e = some k) :
    store elems off e k = some (off, BitVec.ofNat 8 e.body.length) := by
  rw [store, h]
  exact if_pos rfl

theorem store_of_ne (h : kind e ≠ some k) : store elems off e k = elems k := by
  cases hk : kind e with
  | none => rw [store, hk]
  | some k' =>
    rw [store, hk]
    exact if_neg fun heq => h (by rw [hk, heq])

/-- A kind without an element keeps its fields. -/
theorem fill_of_forall_ne {es : List Ie} (h : ∀ e ∈ es, kind e ≠ some k) :
    fill elems off es k = elems k := by
  induction es generalizing elems off with
  | nil => rfl
  | cons e es ih =>
    obtain ⟨he, hes⟩ := List.forall_mem_cons.mp h
    rw [fill, ih hes, store_of_ne he]

/-- The fields of a kind are those of its last element. -/
theorem fill_append_cons {pre post : List Ie} (he : kind e = some k)
    (hpost : ∀ e' ∈ post, kind e' ≠ some k) :
    fill elems off (pre ++ e :: post) k
      = some (off + (ieFormat.encode pre).length + 2, BitVec.ofNat 8 e.body.length) := by
  induction pre generalizing elems off with
  | nil =>
    rw [List.nil_append, fill, fill_of_forall_ne hpost, store_self he]
    rfl
  | cons e' pre ih =>
    rw [List.cons_append, fill, ih, Format.encode_cons, List.length_append, Format.length_enc,
      Nat.add_assoc off]
    rfl

end Fill

/-! ## The first element with an identifier -/

/-- `rtw_get_ie` walks up to it. The induction is on the elements in front of it. -/
theorem getIeLoop_append_cons {pre post : List Ie} {e : Ie} {limit : BitVec 32} (a : List Byte)
    (hfits : ieFormat.Fits (pre ++ e :: post)) (hpre : ∀ e' ∈ pre, e'.id ≠ e.id)
    (hlimit : limit.toInt = (a ++ ieFormat.encode (pre ++ e :: post)).length) {n : ℕ}
    (hn : pre.length < n) :
    getIeLoop (a ++ ieFormat.encode (pre ++ e :: post)) e.id.toNat limit n a.length
        (BitVec.ofNat 32 a.length)
      = some (some (a.length + (ieFormat.encode pre).length), (e.body.length : ℤ)) := by
  induction pre generalizing a n with
  | nil =>
    obtain ⟨n, rfl⟩ := Nat.exists_eq_succ_of_ne_zero (Nat.ne_zero_of_lt hn)
    obtain ⟨he, -⟩ := ieFormat.fits_cons.mp hfits
    rw [List.nil_append, getIeLoop, read_id, read_length]
    simp only [Option.bind_eq_bind, Option.bind_some, if_true, toNat_length he]
    rfl
  | cons e' pre ih =>
    obtain ⟨n, rfl⟩ := Nat.exists_eq_succ_of_ne_zero (Nat.ne_zero_of_lt hn)
    obtain ⟨he', hfits⟩ := ieFormat.fits_cons.mp hfits
    obtain ⟨hne, hpre⟩ := List.forall_mem_cons.mp hpre
    have hid : ¬ (e'.id.toNat : ℤ) = e.id.toNat := fun h =>
      hne (BitVec.eq_of_toNat_eq (Int.ofNat_inj.mp h))
    have hsplit : a ++ ieFormat.encode (e' :: pre ++ e :: post)
        = (a ++ ieFormat.enc e') ++ ieFormat.encode (pre ++ e :: post) := by
      rw [List.append_assoc]
      rfl
    have hnext : (a ++ ieFormat.enc e').length = a.length + (e'.body.length + 2) := by
      rw [List.length_append, Format.length_enc, Nat.add_comm ieFormat.hlen]
      rfl
    rw [hsplit] at hlimit
    -- the element that is searched for is still to come, so that the limit is not reached
    have hmore : 2 ≤ (ieFormat.encode (pre ++ e :: post)).length := by
      rw [Format.encode_append, Format.encode_cons, List.length_append, List.length_append,
        Format.length_enc]
      change 2 ≤ _ + (2 + _ + _)
      omega
    have hindex : BitVec.ofNat 32 a.length + ((BitVec.ofNat 8 e'.body.length).setWidth 32 + 2)
        = BitVec.ofNat 32 (a ++ ieFormat.enc e').length := by
      rw [hnext]
      apply BitVec.eq_of_toNat_eq
      simp only [BitVec.toNat_add, BitVec.toNat_ofNat, BitVec.toNat_setWidth, BitVec.ofNat_eq_ofNat]
      change e'.body.length ≤ 255 at he'
      omega
    have hgo : ¬ limit.toInt ≤ (BitVec.ofNat 32 (a ++ ieFormat.enc e').length).toInt := by
      have := BitVec.toInt_lt (x := limit)
      rw [List.length_append] at hlimit
      rw [BitVec.toInt_eq_toNat_of_lt (x := BitVec.ofNat 32 _)] <;>
        rw [BitVec.toNat_ofNat] <;> omega
    rw [getIeLoop, List.cons_append, read_id, read_length]
    simp only [Option.bind_eq_bind, Option.bind_some, if_neg hid, hindex, if_neg hgo,
      toNat_length he']
    rw [← List.cons_append, hsplit, ← hnext, ih _ hfits hpre hlimit (Nat.lt_of_succ_lt_succ hn),
      Format.encode_cons, List.length_append, List.length_append, Nat.add_assoc]

/-! ## The whole buffer -/

/-- `rtw_ieee802_11_parse_elems` returns and reads inside the buffer. It fails if and only if the
buffer is not a sequence of complete elements; else a kind without an element has no fields, the
fields of a kind with elements are those of its last one, which is found there, and where its
identifier occurs only once `rtw_get_ie` finds the same element. -/
theorem rtwParseElems_correct (start : List Byte) (len : BitVec 32)
    (hlen : len.toNat = start.length) :
    ∃ n res elems, rtwParseElems n start len = some (res, elems)
      ∧ (res = .failed ↔ ¬ IsSeq start)
      ∧ ∀ es, ieFormat.Fits es → start = ieFormat.encode es →
        (∀ k, (∀ e ∈ es, kind e ≠ some k) → elems k = none)
        ∧ ∀ (k : Kind) (pre post : List Ie) (e : Ie), es = pre ++ e :: post → kind e = some k →
          (∀ e' ∈ post, kind e' ≠ some k) →
            (∃ pos elen, elems k = some (pos, elen) ∧ pos + elen.toNat ≤ start.length
              ∧ pos = (ieFormat.encode pre).length + 2 ∧ slice start pos elen.toNat = e.body)
            ∧ ∀ limit : BitVec 32, limit.toInt = start.length → (∀ e' ∈ pre ++ post, e'.id ≠ e.id) →
              ∃ m p l, rtwGetIe m start e.id.toNat 0 limit = some (some p, (l.toNat : ℤ))
                ∧ elems k = some (p + 2, l) := by
  have hlt : start.length < 2 ^ 32 := hlen ▸ len.isLt
  obtain ⟨res, elems, hparse, hfail, hfill⟩ := parseLoop_spec (start.length + 1) [] start
    (Nat.lt_succ_self _) hlt (fun _ => none) 0
  have hlen' : len = BitVec.ofNat 32 start.length := by
    rw [← hlen, BitVec.ofNat_toNat, BitVec.setWidth_eq]
  refine ⟨start.length + 1, res, elems, ?_, hfail, ?_⟩
  · rw [rtwParseElems, hlen']
    exact hparse
  · intro es hfits hes
    have helems := hfill es hfits hes
    refine ⟨fun k hk => ?_, ?_⟩
    · rw [helems, fill_of_forall_ne hk]
    · rintro k pre post e rfl hk hpost
      have he : e.body.length ≤ 255 := hfits e (List.mem_append_right _ List.mem_cons_self)
      have hfields : elems k
          = some ((ieFormat.encode pre).length + 2, BitVec.ofNat 8 e.body.length) := by
        rw [helems, fill_append_cons hk hpost, List.length_nil, Nat.zero_add]
      refine ⟨⟨_, _, hfields, ?_, rfl, ?_⟩, ?_⟩
      · rw [toNat_length he, hes, Format.encode_append, Format.encode_cons, List.length_append,
          List.length_append, Format.length_enc]
        change _ ≤ _ + (2 + _ + _)
        omega
      · rw [toNat_length he, hes, Format.encode_append]
        exact ieFormat.slice_body _ e post
      · intro limit hlimit honce
        have hpre : ∀ e' ∈ pre, e'.id ≠ e.id := fun e' h => honce e' (List.mem_append_left _ h)
        have hget := getIeLoop_append_cons [] hfits hpre (by rw [hlimit, hes]; rfl)
          (Nat.lt_succ_self _)
        rw [List.nil_append, ← hes, List.length_nil, Nat.zero_add] at hget
        have hpos : ¬ limit.toInt < 1 := by
          rw [hlimit, hes, Format.encode_append, Format.encode_cons, List.length_append,
            List.length_append, Format.length_enc]
          change ¬ ((_ + (2 + _ + _) : ℕ) : ℤ) < 1
          omega
        refine ⟨pre.length.succ, _, _, ?_, hfields⟩
        rw [rtwGetIe, if_neg hpos, toNat_length he]
        exact hget

/-- Two elements with an SSID: the fields are those of the second one. -/
theorem rtwParseElems_correct_ssid :
    ∃ n res elems, rtwParseElems n [0, 1, 65, 3, 1, 6, 0, 1, 66] 9 = some (res, elems)
      ∧ res ≠ .failed ∧ (∃ elen, elems .ssid = some (8, elen)) ∧ elems .tim = none := by
  obtain ⟨n, res, elems, hparse, hfail, hall⟩ :=
    rtwParseElems_correct [0, 1, 65, 3, 1, 6, 0, 1, 66] 9 (by decide)
  have hfits : ieFormat.Fits [⟨0, [65]⟩, ⟨3, [6]⟩, ⟨0, [66]⟩] := by unfold Format.Fits; decide
  obtain ⟨habsent, hlast⟩ := hall _ hfits rfl
  obtain ⟨⟨pos, elen, hfields, -, rfl, -⟩, -⟩ :=
    hlast .ssid [⟨0, [65]⟩, ⟨3, [6]⟩] [] ⟨0, [66]⟩ rfl (by decide) (by decide)
  exact ⟨n, res, elems, hparse, fun h => hfail.mp h ⟨_, hfits, rfl⟩, ⟨elen, hfields⟩,
    habsent .tim (by decide)⟩

end Rtl88x2cu.Ieee80211.ParseElems
