import Rtl88x2cu.Ieee80211.DelIe
import Rtl88x2cu.Ieee80211.IeScan
import Rtl88x2cu.Ieee80211.ParseElems

/-!
# Searching and removing elements

`rtw_get_ie` and `rtw_get_ie_ex` search a buffer for an element, `rtw_get_wpa_ie` for the WPA
element, and `rtw_ies_remove_ie` removes elements (`core/rtw_ieee80211.c`). None of them checks that
an element fits into what is left of the buffer, and the OUI is compared without looking at the
length of the element.
-/

namespace Rtl88x2cu.Ieee80211.GetIe

open Bytes Tlv Walker VendorIe ParseElems
open DelIe (usub)

/-! ## Model -/

/-- `!oui || _rtw_memcmp(&in_ie[off], oui, oui_len) == _TRUE`. -/
def ouiMatches (oui : Option (List Byte)) (in_ie : List Byte) (off : ℕ) : Option Bool :=
  oui.elim (some true) (memcmp in_ie off)

section Model

variable (in_ie : List Byte) (in_len : ℕ) (eid : Byte) (oui : Option (List Byte))

/-- An iteration of `rtw_get_ie_ex`; `ie` and `ielen` say whether there is something to store
into. -/
def getIeExStep (ie ielen : Bool) (cnt : ℕ) : Option (Next (Option Found)) :=
  if cnt < in_len then do
    let id ← in_ie[cnt]?
    let hit ← (if eid = id then ouiMatches oui in_ie (cnt + 2) else some false : Option Bool)
    if hit then do
      let copy ← (if ie then
          in_ie[cnt + 1]?.bind fun len => copyOf true in_ie cnt (len.toNat + 2)
        else some [] : Option (List Byte))
      let len ← (if ielen then in_ie[cnt + 1]?.map fun len => len.toNat + 2 else some 0 : Option ℕ)
      some (.done (some ⟨cnt, len, copy⟩))
    else
      let len ← in_ie[cnt + 1]?
      some (.goto ((cnt + (len.toNat + 2)) % 2 ^ 32))
  else some (.done none)

end Model

/-- `rtw_get_ie_ex`; `in_ie` may be `NULL`. -/
def rtwGetIeEx (n : ℕ) (in_ie : Option (List Byte)) (in_len : ℕ) (eid : Byte)
    (oui : Option (List Byte)) (ie ielen : Bool) : Option (Option Found) :=
  match in_ie with
  | none => some none
  | some in_ie =>
    if in_len ≤ 0 then some none else walk (getIeExStep in_ie in_len eid oui ie ielen) n 0

/-- The loop of `rtw_ies_remove_ie`: what it returns, the buffer and its length. `start` is an
offset in `ies`. -/
def removeIeLoop (eid : Byte) (oui : Option (List Byte)) (m : ℕ) :
    ℕ → Bool → List Byte → ℕ → ℕ → ℕ → Option (Bool × List Byte × ℕ)
  | 0, _, _, _, _, _ => none
  | n + 1, ret, ies, ies_len, start, search_len => do
    match ← rtwGetIeEx m (some (ies.drop start)) search_len eid oui false true with
    | none => some (ret, ies, ies_len)
    | some f =>
      if f.len = 0 then some (ret, ies, ies_len)
      else
        let remain_len := usub search_len (f.ptr + f.len)
        let ies ← memmove ies (start + f.ptr) (start + f.ptr + f.len) remain_len
        removeIeLoop eid oui m n true ies (usub ies_len f.len) (start + f.ptr) remain_len

/-- `rtw_ies_remove_ie`, where neither pointer is `NULL`. -/
def rtwIesRemoveIe (n : ℕ) (ies : List Byte) (ies_len offset : ℕ) (eid : Byte)
    (oui : Option (List Byte)) : Option (Bool × List Byte × ℕ) :=
  if ies_len ≤ offset then some (false, ies, ies_len)
  else removeIeLoop eid oui n n false ies ies_len offset (usub ies_len offset)

/-- `_WPA_IE_ID_`. -/
def wpaIeId : ℤ := 0xdd

/-- `wpa_oui_type`. -/
def wpaOuiType : List Byte := [0x00, 0x50, 0xf2, 0x01]

/-- The OUI and the version of the element at `p` are those of WPA. -/
def isWpa (pie : List Byte) (p : ℕ) : Option Bool :=
  (memcmp pie (p + 2) wpaOuiType).bind fun oui =>
    if oui then (getLe16 pie (p + 6)).map fun val16 => decide (val16 = 0x0001) else some false

/-- The loop of `rtw_get_wpa_ie`; `pbuf` is an offset in `pie`, and `len` is not initialised in the
first iteration. -/
def getWpaIeLoop (pie : List Byte) (limit : BitVec 32) (m : ℕ) :
    ℕ → ℕ → ℤ → BitVec 32 → Option (Option ℕ × ℤ)
  | 0, _, _, _ => none
  | n + 1, pbuf, len, limit_new => do
    match ← rtwGetIe m (pie.drop pbuf) wpaIeId len limit_new with
    | (none, _) => some (none, 0)
    | (some p, len) =>
      let pbuf := pbuf + p
      let checked ← isWpa pie pbuf
      if checked then pie[pbuf + 1]?.map fun wpa_ie_len => (some pbuf, (wpa_ie_len.toNat : ℤ))
      else
        let limit_new := BitVec.ofInt 32 (limit.toInt - pbuf - 2 - len)
        if limit_new.toInt ≤ 0 then some (none, 0)
        else getWpaIeLoop pie limit m n (pbuf + (2 + len.toNat)) len limit_new

/-- `rtw_get_wpa_ie`. -/
def rtwGetWpaIe (n : ℕ) (pie : List Byte) (len : ℤ) (limit : BitVec 32) : Option (Option ℕ × ℤ) :=
  getWpaIeLoop pie limit n n 0 len limit

/-! ## `rtw_get_ie` -/

section GetIe

variable {buf rem tail : List Byte} {es : List Ie} {index len : ℤ} {limit : BitVec 32} {n : ℕ}

/-- The loop with its condition in front. -/
def getIeFrom (buf : List Byte) (index : ℤ) (limit : BitVec 32) (n p : ℕ) :
    Option (Option ℕ × ℤ) :=
  if limit.toInt ≤ p then some (none, 0) else getIeLoop buf index limit n p (BitVec.ofNat 32 p)

theorem rtwGetIe_eq (h : 1 ≤ limit.toInt) :
    rtwGetIe n buf index len limit = getIeFrom buf index limit n 0 := by
  rw [rtwGetIe, getIeFrom, if_neg (by omega), if_neg (by simpa using by omega)]
  rfl

/-- The element has the identifier. -/
def idTest (index : ℤ) (t : List Byte) : Option Bool :=
  t[0]?.map fun id => decide ((id.toNat : ℤ) = index)

/-- What is returned and stored for a position. -/
def lenAt (buf : List Byte) : Option ℕ → Option (Option ℕ × ℤ)
  | none => some (none, 0)
  | some p => buf[p + 1]?.map fun len => (some p, (len.toNat : ℤ))

/-- The counter of the loop, as long as it does not overflow. -/
theorem ofNat_add_len (p : ℕ) (len : Byte) :
    BitVec.ofNat 32 p + (len.setWidth 32 + 2) = BitVec.ofNat 32 (p + (len.toNat + 2)) := by
  apply BitVec.eq_of_toNat_eq
  simp only [BitVec.toNat_add, BitVec.toNat_ofNat, BitVec.toNat_setWidth, BitVec.ofNat_eq_ofNat]
  omega

theorem toInt_ofNat_of_lt {p : ℕ} (h : p < 2 ^ 31) : (BitVec.ofNat 32 p).toInt = p := by
  rw [BitVec.toInt_eq_toNat_cond, BitVec.toNat_ofNat]
  omega

/-- An iteration, where the counter does not overflow. -/
theorem getIeFrom_succ {a t : List Byte} {id : Byte} (len : Byte) (hid : t[0]? = some id)
    (hlen : t[1]? = some len) (hlimit : a.length < limit.toInt)
    (hlt : a.length + (len.toNat + 2) < 2 ^ 31) :
    getIeFrom (a ++ t) index limit (n + 1) a.length =
      (idTest index t).bind fun hit => if hit then lenAt (a ++ t) (some a.length)
        else getIeFrom (a ++ t) index limit n (a.length + (len.toNat + 2)) := by
  rw [getIeFrom, if_neg (by omega), getIeLoop, idTest, lenAt, read_append_zero, read_append, hid,
    hlen]
  simp only [Option.bind_eq_bind, Option.bind_some, Option.map_some, ofNat_add_len,
    toInt_ofNat_of_lt hlt, decide_eq_true_eq]
  rfl

/-- The element has no length byte. -/
theorem getIeFrom_eq_none {a t : List Byte} (hlen : t[1]? = none) (hlimit : a.length < limit.toInt) :
    getIeFrom (a ++ t) index limit (n + 1) a.length = none := by
  rw [getIeFrom, if_neg (by omega), getIeLoop, read_append, hlen]
  rcases (a ++ t)[a.length]? with _ | _ <;> rfl

/-- `rtw_get_ie` is a search. -/
theorem getIeFrom_scan (index : ℤ) (tail : List Byte) (hfits : ieFormat.Fits es) (hcut : Cut rem)
    (hlimit : limit.toInt = (ieFormat.encode es ++ rem).length)
    (hlt : (ieFormat.encode es ++ rem).length + 257 < 2 ^ 31) (hn : es.length + 1 ≤ n) :
    getIeFrom (ieFormat.encode es ++ (rem ++ tail)) index limit n 0 =
      (scanIes (idTest index) rem tail es 0).bind
        (lenAt (ieFormat.encode es ++ (rem ++ tail))) := by
  generalize hbuf : ieFormat.encode es ++ (rem ++ tail) = buf
  rw [List.length_append] at hlimit hlt
  -- the length of what is in front of a position
  have hfront : ∀ {a t : List Byte}, buf = a ++ (t ++ (rem ++ tail)) →
      (ieFormat.encode es).length = a.length + t.length := fun {a t} h => by
    have := congrArg List.length (hbuf.trans h)
    simp only [List.length_append] at this
    omega
  refine scan_eq (k := 1) (a := []) (fun a e es n h hfits => ?_) (fun a n h hn => ?_) hbuf.symm
    hfits hn
  · have hlen := hfront h
    have he := (ieFormat.fits_cons.mp hfits).1
    have hl := toNat_length he
    have henc : (BitVec.ofNat 8 e.body.length).toNat + 2 = (ieFormat.enc e).length := by
      rw [hl, Format.length_enc, Nat.add_comm]
      rfl
    have hle := Nat.le_of_lt_succ (BitVec.ofNat 8 e.body.length).isLt
    rw [Format.encode_cons, List.length_append] at hlen
    rw [h, getIeFrom_succ (BitVec.ofNat 8 e.body.length) rfl rfl (by omega) (by omega), henc]
  · have hlen := hfront (t := []) h
    rw [List.length_nil, Nat.add_zero] at hlen
    obtain ⟨n, rfl⟩ := Nat.exists_eq_add_of_le' hn
    rw [scanCut]
    by_cases hrem : rem = []
    · rw [if_pos hrem, getIeFrom, if_pos (by rw [hlimit, hrem, hlen, List.length_nil]; omega)]
      rfl
    · have hpos := List.length_pos_iff.mpr hrem
      obtain ⟨id, hid⟩ : ∃ id, (rem ++ tail)[0]? = some id :=
        ⟨_, List.getElem?_eq_getElem (by rw [List.length_append]; omega)⟩
      rw [if_neg hrem, h]
      rcases hl : (rem ++ tail)[1]? with _ | len
      · -- an element that is found has no length byte either
        rw [getIeFrom_eq_none hl (by omega), idTest, hid, Option.map_some, Option.bind_some]
        split
        · rw [Option.bind_some, lenAt, read_append, hl]
          rfl
        · rfl
      · have hcutlen := hcut.length_lt hrem tail hl
        have hend : getIeFrom (a ++ (rem ++ tail)) index limit n (a.length + (len.toNat + 2)) =
            some (none, 0) := if_pos (by omega)
        have hle := Nat.le_of_lt_succ len.isLt
        rw [getIeFrom_succ len hid hl (by omega) (by omega), hend, idTest, hid, Option.map_some,
          Option.bind_some, Option.bind_some]
        split <;> rfl

end GetIe

/-! ## `rtw_get_ie_ex` -/

section GetIeEx

variable {buf rem tail : List Byte} {es : List Ie} {eid : Byte} {oui : Option (List Byte)}
  {ie ielen : Bool} {n in_len : ℕ}

/-- The element has the identifier, and the bytes behind its header are the OUI. -/
def ieTest (eid : Byte) (oui : Option (List Byte)) (t : List Byte) : Option Bool :=
  t[0]?.bind fun id => if eid = id then ouiMatches oui t 2 else some false

/-- What is returned and stored for a position. -/
def foundAt (buf : List Byte) (ie ielen : Bool) (p : ℕ) : Option Found :=
  (if ie then buf[p + 1]?.bind fun len => copyOf true buf p (len.toNat + 2) else some []).bind
    fun copy => (if ielen then buf[p + 1]?.map fun len => len.toNat + 2 else some 0).map
      fun len => ⟨p, len, copy⟩

def exResult (buf : List Byte) (ie ielen : Bool) : Option ℕ → Option (Option Found)
  | none => some none
  | some p => (foundAt buf ie ielen p).map some

theorem getIeExStep_append {a t : List Byte} (h : a.length < in_len) :
    getIeExStep (a ++ t) in_len eid oui ie ielen a.length =
      (ieTest eid oui t).bind fun hit =>
        if hit then (foundAt (a ++ t) ie ielen a.length).map fun f => .done (some f)
        else t[1]?.map fun len => .goto ((a.length + (len.toNat + 2)) % 2 ^ 32) := by
  have houi : ouiMatches oui (a ++ t) (a.length + 2) = ouiMatches oui t 2 := by
    rcases oui with _ | oui
    · rfl
    · exact memcmp_append a t oui 2
  rw [getIeExStep, if_pos h, read_append_zero, ieTest, foundAt, read_append, houi]
  rcases t[0]? with _ | id
  case none => rfl
  case some =>
    simp only [Option.bind_eq_bind, Option.bind_some]
    rcases (if eid = id then ouiMatches oui t 2 else some false) with _ | _ | _
    case none => rfl
    case some.false => rcases t[1]? with _ | len <;> rfl
    case some.true =>
      simp only [Option.bind_some, if_true, Option.map_bind]
      congr 1
      funext copy
      rw [Function.comp, Option.map_map]
      exact Option.map_eq_bind.symm

/-- An iteration, where the counter does not overflow. -/
theorem walk_getIeExStep {a t : List Byte} (h : a.length < in_len)
    (hlt : a.length + 257 < 2 ^ 31) :
    walk (getIeExStep (a ++ t) in_len eid oui ie ielen) (n + 1) a.length =
      (ieTest eid oui t).bind fun hit =>
        if hit then exResult (a ++ t) ie ielen (some a.length)
        else t[1]?.bind fun len =>
          walk (getIeExStep (a ++ t) in_len eid oui ie ielen) n (a.length + (len.toNat + 2)) := by
  rw [walk, getIeExStep_append h, exResult]
  rcases ieTest eid oui t with _ | _ | _
  case none => rfl
  case some.false =>
    rcases t[1]? with _ | len
    case none => rfl
    case some =>
      have hle := Nat.le_of_lt_succ len.isLt
      simp only [Option.bind_some, Bool.false_eq_true, if_false, Option.map_some]
      rw [Nat.mod_eq_of_lt (by omega)]
  case some.true =>
    simp only [Option.bind_some, if_true]
    rcases foundAt (a ++ t) ie ielen a.length with _ | f <;> rfl

/-- `rtw_get_ie_ex` is a search. -/
theorem rtwGetIeEx_scan (eid : Byte) (oui : Option (List Byte)) (ie ielen : Bool)
    (tail : List Byte) (hfits : ieFormat.Fits es) (hcut : Cut rem)
    (hlt : (ieFormat.encode es ++ rem).length + 257 < 2 ^ 31) (hn : es.length + 2 ≤ n) :
    rtwGetIeEx n (some (ieFormat.encode es ++ (rem ++ tail))) (ieFormat.encode es ++ rem).length eid
        oui ie ielen =
      (scanIes (ieTest eid oui) rem tail es 0).bind
        (exResult (ieFormat.encode es ++ (rem ++ tail)) ie ielen) := by
  generalize hbuf : ieFormat.encode es ++ (rem ++ tail) = buf
  generalize hin : (ieFormat.encode es ++ rem).length = in_len at hlt
  rw [List.length_append] at hin
  -- the length of what is in front of a position
  have hfront : ∀ {a t : List Byte}, buf = a ++ (t ++ (rem ++ tail)) →
      (ieFormat.encode es).length = a.length + t.length := fun {a t} h => by
    have := congrArg List.length (hbuf.trans h)
    simp only [List.length_append] at this
    omega
  have hend : ∀ {p : ℕ} (n : ℕ), in_len ≤ p →
      walk (getIeExStep buf in_len eid oui ie ielen) (n + 1) p = some none := fun n hp =>
    walk_done (if_neg (Nat.not_lt.mpr hp))
  have hwalk : walk (getIeExStep buf in_len eid oui ie ielen) n 0 =
      (scanIes (ieTest eid oui) rem tail es 0).bind (exResult buf ie ielen) := by
    refine scan_eq (k := 2) (a := []) (fun a e es n h hfits => ?_) (fun a n h hn => ?_) hbuf.symm
      hfits hn
    · have hlen := hfront h
      have henc : (BitVec.ofNat 8 e.body.length).toNat + 2 = (ieFormat.enc e).length := by
        rw [toNat_length (ieFormat.fits_cons.mp hfits).1, Format.length_enc, Nat.add_comm]
        rfl
      rw [Format.encode_cons, List.length_append] at hlen
      have hlen1 : (ieFormat.encode (e :: es) ++ (rem ++ tail))[1]? =
        some (BitVec.ofNat 8 e.body.length) := rfl
      rw [h, walk_getIeExStep (by omega) (by omega), hlen1, Option.bind_some, henc]
    · have hlen := hfront (t := []) h
      rw [List.length_nil, Nat.add_zero] at hlen
      obtain ⟨n, rfl⟩ := Nat.exists_eq_add_of_le' hn
      rw [scanCut]
      by_cases hrem : rem = []
      · rw [hrem, List.length_nil] at hin
        rw [if_pos hrem]
        exact hend _ (by omega)
      · have hpos := List.length_pos_iff.mpr hrem
        rw [if_neg hrem, h, walk_getIeExStep (by omega) (by omega), Option.bind_assoc]
        congr 1
        funext hit
        rcases hit with _ | _
        case true => rfl
        case false =>
          rcases hl : (rem ++ tail)[1]? with _ | len
          · rfl
          · have hcutlen := hcut.length_lt hrem tail hl
            rw [← h]
            exact hend n (by omega)
  rw [rtwGetIeEx]
  split
  case isTrue h =>
    -- nothing is searched
    obtain ⟨n, rfl⟩ := Nat.exists_eq_add_of_le' (show 1 ≤ n by omega)
    rw [← hwalk, hend n h]
  case isFalse => exact hwalk

end GetIeEx

/-! ## When the searches are safe and right -/

/-- With enough iterations a function returns. -/
def Returns {ρ : Type*} (f : ℕ → Option ρ) (r : ρ) : Prop := ∃ m, ∀ n, m ≤ n → f n = some r

theorem returns_iff {ρ : Type*} {f : ℕ → Option ρ} {v : Option ρ} (m : ℕ)
    (h : ∀ n, m ≤ n → f n = v) (r : ρ) : Returns f r ↔ v = some r := by
  constructor
  · rintro ⟨m', hm'⟩
    rw [← h (max m m') (Nat.le_max_left _ _), hm' _ (Nat.le_max_right _ _)]
  · rintro rfl
    exact ⟨m, h⟩

section Search

variable {bs : List Byte} {index : ℤ} {eid : Byte} {oui : Option (List Byte)}

/-- `rtw_get_ie` returns, reads only inside the buffer `bs` and returns only what lies inside; and in
a sequence of elements it finds the first one with the identifier. -/
def GetIeOk (bs : List Byte) (index : ℤ) : Prop :=
  ∀ (len : ℤ) (limit : BitVec 32), limit.toInt = bs.length →
    ∃ r l, Returns (fun n => rtwGetIe n bs index len limit) (r, l) ∧
      (∀ p, r = some p → p + ieLen bs p ≤ bs.length ∧ l + 2 = ieLen bs p) ∧
      ∀ es, ieFormat.Fits es → bs = ieFormat.encode es →
        r = firstIe (fun e => (e.id.toNat : ℤ) = index) es 0

/-- The element is searched for. -/
def IsIe (eid : Byte) (oui : Option (List Byte)) (e : Ie) : Prop :=
  e.id = eid ∧ ∀ o ∈ oui, o <+: e.body

instance (eid : Byte) (oui : Option (List Byte)) : DecidablePred (IsIe eid oui) := fun _ =>
  inferInstanceAs (Decidable (_ ∧ _))

/-- So does `rtw_get_ie_ex`, which finds the first element with the identifier and the OUI. -/
def GetIeExOk (bs : List Byte) (eid : Byte) (oui : Option (List Byte)) : Prop :=
  ∀ ie ielen, ∃ r,
    Returns (fun n => rtwGetIeEx n (some bs) bs.length eid oui ie ielen) r ∧
    (∀ f, r = some f → f.ptr + ieLen bs f.ptr ≤ bs.length ∧
      f.len = (if ielen then ieLen bs f.ptr else 0) ∧
      f.copy = if ie then slice bs f.ptr (ieLen bs f.ptr) else []) ∧
    ∀ es, ieFormat.Fits es → bs = ieFormat.encode es →
      r.map (·.ptr) = firstIe (IsIe eid oui) es 0

/-- What is cut off has a length byte and another identifier, unless a whole element is found in
front of it. -/
def GetIeCond (bs : List Byte) (index : ℤ) : Prop :=
  SearchCond (idTest index) (cutOff bs) [] (elems bs)

instance (bs : List Byte) (index : ℤ) : Decidable (GetIeCond bs index) :=
  inferInstanceAs (Decidable (SearchCond _ _ _ _))

/-- The comparisons stay inside the buffer, up to an element that is found or to what is cut off; that
is not found and has a length byte. In a sequence of elements, the bytes behind an element that is
shorter than the OUI do not make it one that is found. -/
def GetIeExCond (bs : List Byte) (eid : Byte) (oui : Option (List Byte)) : Prop :=
  SearchCond (ieTest eid oui) (cutOff bs) [] (elems bs) ∧
    (cutOff bs = [] → FirstRight (ieTest eid oui) (IsIe eid oui) [] (elems bs))

instance (bs : List Byte) (eid : Byte) (oui : Option (List Byte)) :
    Decidable (GetIeExCond bs eid oui) :=
  inferInstanceAs (Decidable (_ ∧ _))

theorem read_of_inside {p : ℕ} (h : p + ieLen bs p ≤ bs.length) :
    bs[p + 1]? = some (bs.getD (p + 1) 0) := by
  have hle : 2 ≤ ieLen bs p := Nat.le_add_left 2 _
  rw [List.getD_eq_getElem?_getD, List.getElem?_eq_getElem (by omega)]
  rfl

theorem lenAt_of_inside {p : ℕ} (h : p + ieLen bs p ≤ bs.length) :
    lenAt bs (some p) = some (some p, (ieLen bs p : ℤ) - 2) := by
  rw [lenAt, read_of_inside h, ieLen]
  simp

theorem exResult_of_inside {p : ℕ} (h : p + ieLen bs p ≤ bs.length) (ie ielen : Bool) :
    exResult bs ie ielen (some p) = some (some ⟨p, if ielen then ieLen bs p else 0,
      if ie then slice bs p (ieLen bs p) else []⟩) := by
  rw [exResult, foundAt, read_of_inside h, Option.bind_some, Option.map_some]
  change (((if ie = true then copyOf true bs p (ieLen bs p) else some []).bind _).map some) = _
  have hcopy : copyOf true bs p (ieLen bs p) = some (slice bs p (ieLen bs p)) := by
    rw [copyOf, if_pos rfl, if_pos h]
  rw [hcopy]
  cases ie <;> cases ielen <;> rfl

/-- What is found is a position of the search. -/
theorem ptr_exResult {r : Option ℕ} {ie ielen : Bool} {f : Option Found}
    (h : exResult bs ie ielen r = some f) : f.map (·.ptr) = r := by
  rcases r with _ | p
  · cases h
    rfl
  · obtain ⟨g, hg, rfl⟩ := Option.map_eq_some_iff.mp h
    obtain ⟨copy, -, hg⟩ := Option.bind_eq_some_iff.mp hg
    obtain ⟨len, -, rfl⟩ := Option.map_eq_some_iff.mp hg
    rfl

theorem fst_lenAt {r : Option ℕ} {x : Option ℕ × ℤ} (h : lenAt bs r = some x) : x.1 = r := by
  rcases r with _ | p
  · cases h
    rfl
  · obtain ⟨len, -, rfl⟩ := Option.map_eq_some_iff.mp h
    rfl

theorem idTest_encode (e : Ie) (es : List Ie) (tail : List Byte) :
    idTest index (ieFormat.encode (e :: es) ++ tail) =
      some (decide ((e.id.toNat : ℤ) = index)) := rfl

/-- What is returned and stored for a search that finds only what lies inside. -/
theorem bind_lenAt_iff {s : Option (Option ℕ)} {r : Option ℕ} {l : ℤ}
    (hin : ∀ p, r = some p → p + ieLen bs p ≤ bs.length) :
    s.bind (lenAt bs) = some (r, l) ↔
      s = some r ∧ l = r.elim 0 fun p => (ieLen bs p : ℤ) - 2 := by
  constructor
  · intro h
    obtain ⟨r', rfl, hl⟩ := Option.bind_eq_some_iff.mp h
    obtain rfl : r = r' := fst_lenAt hl
    rcases r with _ | p
    · cases hl
      exact ⟨rfl, rfl⟩
    · rw [lenAt_of_inside (hin p rfl)] at hl
      cases hl
      exact ⟨rfl, rfl⟩
  · rintro ⟨rfl, rfl⟩
    rcases r with _ | p
    · rfl
    · rw [Option.bind_some, lenAt_of_inside (hin p rfl)]
      rfl

theorem getIeOk_iff (hlt : bs.length + 257 < 2 ^ 31) : GetIeOk bs index ↔ GetIeCond bs index := by
  have hbs := encode_elems_append bs
  have hfits := fits_elems bs
  have hcut := cut_cutOff bs
  have hsafe := scanIes_safe_iff (idTest index) hcut (a := []) hbs.symm hfits
  rw [List.length_nil] at hsafe
  rcases Nat.eq_zero_or_pos bs.length with hlen | hlen
  · -- nothing is searched
    obtain rfl := List.length_eq_zero_iff.mp hlen
    refine iff_of_true (fun len limit hlimit => ⟨none, len, ⟨0, fun n _ => ?_⟩, ?_, ?_⟩) (.inl rfl)
    · exact if_pos (by rw [hlimit]; decide)
    · rintro p hp
      cases hp
    · intro es hfits hes
      obtain ⟨helems, -⟩ := elems_encode hfits
      rw [← helems, ← hes]
      rfl
  · have hscan : ∀ (len : ℤ) (limit : BitVec 32), limit.toInt = bs.length →
        ∀ x, Returns (fun n => rtwGetIe n bs index len limit) x ↔
          (scanIes (idTest index) (cutOff bs) [] (elems bs) 0).bind (lenAt bs) = some x := by
      intro len limit hlimit
      refine returns_iff ((elems bs).length + 1) fun n hn => ?_
      rw [rtwGetIe_eq (by omega)]
      have h := getIeFrom_scan index [] hfits hcut
        (by rw [hbs, hlimit]) (by rw [hbs]; exact hlt) hn
      rwa [List.append_nil, hbs] at h
    rw [GetIeCond, ← hsafe]
    constructor
    · intro h
      have hint := toInt_ofNat_of_lt (show bs.length < 2 ^ 31 by omega)
      obtain ⟨r, l, hret, hin, -⟩ := h 0 (BitVec.ofNat 32 bs.length) hint
      have hin' := fun p hp => (hin p hp).1
      exact ⟨r, ((bind_lenAt_iff hin').mp ((hscan _ _ hint _).mp hret)).1, hin'⟩
    · rintro ⟨r, hr, hin⟩ len limit hlimit
      refine ⟨r, _, (hscan _ _ hlimit _).mpr ((bind_lenAt_iff hin).mpr ⟨hr, rfl⟩), ?_, ?_⟩
      · rintro p rfl
        exact ⟨hin p rfl, Int.sub_add_cancel _ _⟩
      · rintro es hes rfl
        rw [(elems_encode hes).1, (elems_encode hes).2,
          scanIes_eq_firstIe fun _ _ => idTest_encode _ _ _] at hr
        exact (Option.some.inj hr).symm

/-- An element that is searched for passes the test. -/
theorem ieTest_of_isIe {e : Ie} (h : IsIe eid oui e) (es : List Ie) (tail : List Byte) :
    ieTest eid oui (ieFormat.encode (e :: es) ++ tail) = some true := by
  obtain ⟨rfl, houi⟩ := h
  have hid : (ieFormat.encode (e :: es) ++ tail)[0]? = some e.id := rfl
  rw [ieTest, hid, Option.bind_some, if_pos rfl]
  rcases oui with _ | o
  · rfl
  · obtain ⟨body, hbody⟩ := houi o rfl
    have hsplit : ieFormat.encode (e :: es) ++ tail = ieFormat.hdr e.id e.body.length ++
        (o ++ (body ++ (ieFormat.encode es ++ tail))) := by
      rw [Format.encode_cons, Format.enc, ← hbody]
      simp only [List.append_assoc]
    change memcmp (ieFormat.encode (e :: es) ++ tail) 2 o = some true
    have hslice := slice_middle (c := body ++ (ieFormat.encode es ++ tail))
      (ieFormat.length_hdr e.id e.body.length) (rfl : o.length = o.length)
    have hlen : 2 + o.length ≤ (ieFormat.encode (e :: es) ++ tail).length := by
      rw [hsplit, List.length_append, List.length_append, ieFormat.length_hdr]
      change 2 + _ ≤ 2 + _
      omega
    rw [memcmp_of_le hlen, hsplit]
    change some (slice _ ieFormat.hlen o.length == o) = some true
    rw [hslice, beq_self_eq_true]

theorem getIeExOk_iff (hlt : bs.length + 257 < 2 ^ 31) :
    GetIeExOk bs eid oui ↔ GetIeExCond bs eid oui := by
  have hbs := encode_elems_append bs
  have hfits := fits_elems bs
  have hcut := cut_cutOff bs
  have hsafe := scanIes_safe_iff (ieTest eid oui) hcut (a := []) hbs.symm hfits
  rw [List.length_nil] at hsafe
  have hscan : ∀ (ie ielen : Bool) r,
      Returns (fun n => rtwGetIeEx n (some bs) bs.length eid oui ie ielen) r ↔
        (scanIes (ieTest eid oui) (cutOff bs) [] (elems bs) 0).bind (exResult bs ie ielen) =
          some r := by
    intro ie ielen
    refine returns_iff ((elems bs).length + 2) fun n hn => ?_
    have h := rtwGetIeEx_scan eid oui ie ielen [] hfits hcut (by rw [hbs]; exact hlt) hn
    rwa [List.append_nil, hbs] at h
  have hright : cutOff bs = [] → ∀ r, scanIes (ieTest eid oui) (cutOff bs) [] (elems bs) 0 = some r →
      (r = firstIe (IsIe eid oui) (elems bs) 0 ↔
        FirstRight (ieTest eid oui) (IsIe eid oui) [] (elems bs)) := by
    intro hrem r hr
    rw [hrem] at hr
    rw [← scanIes_eq_firstIe_iff (fun e es h => ieTest_of_isIe h es []) (elems bs) 0, hr,
      Option.some.injEq]
  rw [GetIeExCond, ← hsafe]
  constructor
  · intro h
    obtain ⟨f, hret, hin, hfirst⟩ := h true true
    obtain ⟨r, hr, hf⟩ := Option.bind_eq_some_iff.mp ((hscan _ _ _).mp hret)
    have hptr := ptr_exResult hf
    refine ⟨⟨r, hr, fun p hp => ?_⟩, fun hrem => (hright hrem r hr).mp ?_⟩
    · rcases f with _ | f
      · rw [← hptr] at hp
        cases hp
      · obtain rfl : f.ptr = p := Option.some.inj (hptr.trans hp)
        exact (hin f rfl).1
    · rw [hrem, List.append_nil] at hbs
      rw [← hptr]
      exact hfirst _ hfits hbs.symm
  · rintro ⟨⟨r, hr, hin⟩, hfirst⟩ ie ielen
    have hwf : ∀ es, ieFormat.Fits es → bs = ieFormat.encode es →
        r = firstIe (IsIe eid oui) es 0 := by
      intro es hes heq
      obtain ⟨helems, hrem⟩ := elems_encode hes
      rw [← heq] at helems hrem
      rw [(hright hrem r hr).mpr (hfirst hrem), helems]
    rcases r with _ | p
    · exact ⟨none, (hscan _ _ _).mpr (by rw [hr]; rfl), fun f hf => (nomatch hf), hwf⟩
    · refine ⟨some ⟨p, if ielen then ieLen bs p else 0, if ie then slice bs p (ieLen bs p) else []⟩,
        (hscan _ _ _).mpr ?_, ?_, hwf⟩
      · rw [hr, Option.bind_some, exResult_of_inside (hin p rfl)]
      rintro f hf
      cases hf
      exact ⟨hin p rfl, rfl, rfl⟩

end Search

end Rtl88x2cu.Ieee80211.GetIe
