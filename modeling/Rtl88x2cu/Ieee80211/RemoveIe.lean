import Rtl88x2cu.Ieee80211.GetIe

/-!
# The search for the WPA element, and the removal of elements

`rtw_get_wpa_ie` calls `rtw_get_ie` for the next vendor element until one is the WPA element, and
`rtw_ies_remove_ie` calls `rtw_get_ie_ex` on what is behind the last element that it has removed.

`wpaIeOk_iff` and `removeIeOk_iff` say when the two are safe and right, and `getIe_iff` puts them
together with the searches.
-/

namespace Rtl88x2cu.Ieee80211.GetIe

open Bytes Tlv Walker VendorIe ParseElems
open DelIe (usub usub_eq)

/-! ## `rtw_get_wpa_ie` -/

section Wpa

variable {a pie rem : List Byte} {es : List Ie} {limit limit_new : BitVec 32} {m n : ℕ} {len : ℤ}

/-- The element is the WPA element. -/
def wpaTest (t : List Byte) : Option Bool :=
  t[0]?.bind fun id => if (id.toNat : ℤ) = wpaIeId then isWpa t 0 else some false

theorem getLe16_append (a b : List Byte) (off : ℕ) :
    getLe16 (a ++ b) (a.length + off) = getLe16 b off := by
  rw [getLe16, getLe16, read_append, Nat.add_assoc, read_append]

theorem isWpa_append (a t : List Byte) : isWpa (a ++ t) a.length = isWpa t 0 := by
  rw [isWpa, isWpa, memcmp_append, getLe16_append]

/-- What is done at a vendor element. -/
def wpaAt (pie : List Byte) (limit : BitVec 32) (m n : ℕ) : Option ℕ → Option (Option ℕ × ℤ)
  | none => some (none, 0)
  | some p =>
    pie[p + 1]?.bind fun len => (isWpa pie p).bind fun checked =>
      if checked then lenAt pie (some p)
      else if (BitVec.ofInt 32 (limit.toInt - p - 2 - len.toNat)).toInt ≤ 0 then some (none, 0)
      else getWpaIeLoop pie limit m n (p + (2 + len.toNat)) len.toNat
        (BitVec.ofInt 32 (limit.toInt - p - 2 - len.toNat))

/-- An iteration, by the search for the next vendor element. -/
theorem getWpaIeLoop_succ (hpie : pie = a ++ (ieFormat.encode es ++ rem))
    (hfits : ieFormat.Fits es) (hcut : Cut rem)
    (hlimit : limit_new.toInt = (ieFormat.encode es ++ rem).length) (hpos : 1 ≤ limit_new.toInt)
    (hlt : (ieFormat.encode es ++ rem).length + 257 < 2 ^ 31) (hm : es.length + 1 ≤ m) :
    getWpaIeLoop pie limit m (n + 1) a.length len limit_new =
      (scanIes (idTest wpaIeId) rem [] es a.length).bind (wpaAt pie limit m n) := by
  have hscan := getIeFrom_scan wpaIeId [] hfits hcut hlimit hlt hm
  rw [List.append_nil] at hscan
  have hshift : scanIes (idTest wpaIeId) rem [] es (0 + a.length) =
      (scanIes (idTest wpaIeId) rem [] es 0).map (Option.map (· + a.length)) :=
    scanIes_add es 0 a.length
  rw [Nat.zero_add] at hshift
  rw [getWpaIeLoop, hpie, List.drop_left, rtwGetIe_eq hpos, hscan, hshift]
  rcases scanIes (idTest wpaIeId) rem [] es 0 with _ | _ | p
  case none => rfl
  case some.none => rfl
  case some.some =>
    have hread : (a ++ (ieFormat.encode es ++ rem))[p + a.length + 1]? =
        (ieFormat.encode es ++ rem)[p + 1]? := by
      rw [Nat.add_comm p, Nat.add_assoc, read_append]
    simp only [Option.bind_some, Option.map_some, lenAt, wpaAt, hread]
    rcases hl : (ieFormat.encode es ++ rem)[p + 1]? with _ | l
    case none => rfl
    case some =>
      rw [hl] at hread
      simp only [Option.bind_some, Option.map_some, Option.bind_eq_bind, Nat.add_comm a.length p,
        hread]
      rfl

/-- What is stored by a search before makes no difference. -/
theorem getWpaIeLoop_len (hpos : 1 ≤ limit_new.toInt) (len' : ℤ) (p : ℕ) :
    getWpaIeLoop pie limit m n p len limit_new = getWpaIeLoop pie limit m n p len' limit_new := by
  cases n with
  | zero => rfl
  | succ n => rw [getWpaIeLoop, getWpaIeLoop, rtwGetIe_eq hpos, rtwGetIe_eq hpos]

/-- The new limit is what is left behind the element. -/
theorem toInt_newLimit {p : ℕ} (l : Byte) (hlimit : limit.toInt = pie.length)
    (hlt : pie.length + 257 < 2 ^ 31) (hp : p < pie.length) :
    (BitVec.ofInt 32 (limit.toInt - p - 2 - l.toNat)).toInt =
      (pie.length : ℤ) - (p + (2 + l.toNat) : ℕ) := by
  have hle := l.isLt
  rw [BitVec.toInt_ofInt_eq_self (by decide) (by omega) (by omega)]
  omega

/-- The search for the WPA element is a search; the induction is on the elements. -/
theorem getWpaIeLoop_scan (len : ℤ) (hpie : pie = a ++ (ieFormat.encode es ++ rem))
    (hfits : ieFormat.Fits es) (hcut : Cut rem) (hlimit : limit.toInt = pie.length)
    (hnew : limit_new.toInt = (ieFormat.encode es ++ rem).length)
    (hlt : pie.length + 257 < 2 ^ 31) (hpos : 1 ≤ limit_new.toInt) (hm : es.length + 1 ≤ m)
    (hn : es.length + 1 ≤ n) :
    getWpaIeLoop pie limit m n a.length len limit_new =
      (scanIes wpaTest rem [] es a.length).bind (lenAt pie) := by
  induction es generalizing a n len limit_new with
  | nil =>
    obtain ⟨n, rfl⟩ := Nat.exists_eq_add_of_le' (show 1 ≤ n by omega)
    have hlen : pie.length = a.length + (ieFormat.encode [] ++ rem).length := by
      rw [hpie, List.length_append]
    rw [getWpaIeLoop_succ hpie hfits hcut hnew hpos (by omega) hm, scanIes, scanIes, scanCut, scanCut,
      List.append_nil]
    rw [Format.encode_nil, List.nil_append] at hpie hnew hlen
    have hrem : rem ≠ [] := by
      rintro rfl
      rw [hnew] at hpos
      exact absurd hpos (by decide)
    obtain ⟨id, hid⟩ : ∃ id, rem[0]? = some id :=
      ⟨_, List.getElem?_eq_getElem (List.length_pos_iff.mpr hrem)⟩
    rw [if_neg hrem, if_neg hrem, idTest, wpaTest, hid, Option.map_some, Option.bind_some,
      Option.bind_some]
    by_cases hdd : (id.toNat : ℤ) = wpaIeId
    · have hread : pie[a.length + 1]? = rem[1]? := by rw [hpie, read_append]
      have hwpa : isWpa pie a.length = isWpa rem 0 := by rw [hpie, isWpa_append]
      rw [decide_eq_true hdd, if_pos rfl, if_pos hdd, Option.bind_some, wpaAt, lenAt, hread, hwpa]
      rcases hl : rem[1]? with _ | l
      · rcases isWpa rem 0 with _ | _ | _ <;> simp [lenAt, hread, hl]
      · have hcutlen := hcut.length_lt hrem [] (by rwa [List.append_nil])
        have hend := toInt_newLimit l hlimit hlt (p := a.length) (by omega)
        rcases isWpa rem 0 with _ | _ | _
        case none => rfl
        case some.false =>
          rw [Option.bind_some, Option.bind_some, if_neg Bool.false_ne_true, if_pos (by omega)]
          rfl
        case some.true => simp [lenAt, hread, hl]
    · rw [decide_eq_false hdd, if_neg Bool.false_ne_true, if_neg hdd, Option.bind_some]
      rcases rem[1]? with _ | l <;> rfl
  | cons e es ih =>
    obtain ⟨n, rfl⟩ := Nat.exists_eq_add_of_le' (show 1 ≤ n by omega)
    have hlen : pie.length = a.length + (ieFormat.encode (e :: es) ++ rem).length := by
      rw [hpie, List.length_append]
    obtain ⟨he, hfits'⟩ := ieFormat.fits_cons.mp hfits
    rw [List.length_cons] at hm hn
    have hnext : pie = (a ++ ieFormat.enc e) ++ (ieFormat.encode es ++ rem) := by
      rw [hpie, Format.encode_cons, List.append_assoc, List.append_assoc]
    have hrest : pie.length = (a ++ ieFormat.enc e).length + (ieFormat.encode es ++ rem).length := by
      rw [hnext, List.length_append]
    -- behind the last element there is nothing to search
    have hend : ∀ test : List Byte → Option Bool, (ieFormat.encode es ++ rem).length = 0 →
        scanIes test rem [] es (a ++ ieFormat.enc e).length = some none := by
      intro test h
      obtain ⟨hes, rfl⟩ := List.append_eq_nil_iff.mp (List.length_eq_zero_iff.mp h)
      obtain rfl : es = [] := by
        cases es with
        | nil => rfl
        | cons e' es => cases hes
      rfl
    have hskip : (scanIes (idTest wpaIeId) rem [] es (a ++ ieFormat.enc e).length).bind
        (wpaAt pie limit m n) =
        (scanIes wpaTest rem [] es (a ++ ieFormat.enc e).length).bind (lenAt pie) := by
      rcases Nat.eq_zero_or_pos (ieFormat.encode es ++ rem).length with h0 | h0
      · rw [hend _ h0, hend _ h0]
        rfl
      · have hint := toInt_ofNat_of_lt (show (ieFormat.encode es ++ rem).length < 2 ^ 31 by omega)
        rw [← ih 0 hnext hfits' hint (by omega) (by omega) (n := n + 1) (by omega),
          getWpaIeLoop_succ hnext hfits' hcut hint (by omega) (by omega) (by omega)]
    rw [getWpaIeLoop_succ hpie hfits hcut hnew hpos (by omega) (by simpa using hm), scanIes, scanIes,
      idTest_encode, Option.bind_some, ← List.length_append, List.append_nil, wpaTest]
    have hid : (ieFormat.encode (e :: es) ++ rem)[0]? = some e.id := rfl
    rw [hid, Option.bind_some]
    by_cases hdd : (e.id.toNat : ℤ) = wpaIeId
    · have hread : pie[a.length + 1]? = some (BitVec.ofNat 8 e.body.length) := by
        rw [hpie, read_append]
        rfl
      have hwpa : isWpa pie a.length = isWpa (ieFormat.encode (e :: es) ++ rem) 0 := by
        rw [hpie, isWpa_append]
      have hl : a.length + (2 + (BitVec.ofNat 8 e.body.length).toNat) =
          (a ++ ieFormat.enc e).length := by
        rw [toNat_length he, List.length_append, Format.length_enc]
        rfl
      have hint := toInt_newLimit (BitVec.ofNat 8 e.body.length) hlimit hlt (p := a.length)
        (by rw [Format.encode_cons, List.append_assoc, List.length_append, Format.length_enc] at hlen
            change _ = _ + (2 + _ + _) at hlen
            omega)
      rw [decide_eq_true hdd, if_pos rfl, if_pos hdd, Option.bind_some, wpaAt, hread, hwpa,
        Option.bind_some]
      rw [hl] at hint ⊢
      rcases isWpa (ieFormat.encode (e :: es) ++ rem) 0 with _ | _ | _
      case none => rfl
      case some.false =>
        rw [Option.bind_some, Option.bind_some, if_neg Bool.false_ne_true,
          if_neg Bool.false_ne_true]
        split
        case isTrue h0 =>
          rw [hend _ (by omega)]
          rfl
        case isFalse h0 =>
          exact ih _ hnext hfits' (by omega) (by omega) (by omega) (by omega)
      case some.true => rfl
    · rw [decide_eq_false hdd, if_neg Bool.false_ne_true, if_neg hdd, Option.bind_some,
        if_neg Bool.false_ne_true]
      exact hskip

/-- `rtw_get_wpa_ie` returns, reads only inside the buffer and returns only what lies inside. -/
def WpaIeOk (pie : List Byte) : Prop :=
  ∀ (len : ℤ) (limit : BitVec 32), limit.toInt = pie.length →
    ∃ r l, Returns (fun n => rtwGetWpaIe n pie len limit) (r, l) ∧
      ∀ p, r = some p → p + ieLen pie p ≤ pie.length ∧ l + 2 = ieLen pie p

/-- At the vendor elements up to the WPA element, the OUI and, after it, the version are inside the
buffer; and what is cut off is not the WPA element and has a length byte. -/
def WpaIeCond (pie : List Byte) : Prop := SearchCond wpaTest (cutOff pie) [] (elems pie)

instance (pie : List Byte) : Decidable (WpaIeCond pie) :=
  inferInstanceAs (Decidable (SearchCond _ _ _ _))

theorem wpaIeOk_iff (hlt : pie.length + 257 < 2 ^ 31) : WpaIeOk pie ↔ WpaIeCond pie := by
  have hpie := encode_elems_append pie
  have hfits := fits_elems pie
  have hcut := cut_cutOff pie
  have hsafe := scanIes_safe_iff wpaTest hcut (a := []) hpie.symm hfits
  rw [List.length_nil] at hsafe
  have hscan : ∀ (len : ℤ) (limit : BitVec 32), limit.toInt = pie.length →
      ∀ x, Returns (fun n => rtwGetWpaIe n pie len limit) x ↔
        (scanIes wpaTest (cutOff pie) [] (elems pie) 0).bind (lenAt pie) = some x := by
    intro len limit hlimit
    refine returns_iff ((elems pie).length + 1) fun n hn => ?_
    rcases Nat.eq_zero_or_pos pie.length with hlen | hlen
    · -- nothing is searched
      obtain rfl := List.length_eq_zero_iff.mp hlen
      obtain ⟨n, rfl⟩ := Nat.exists_eq_add_of_le' (show 1 ≤ n by omega)
      have hnull : rtwGetIe (n + 1) [] wpaIeId len limit = some (none, len) :=
        if_pos (by rw [hlimit]; decide)
      rw [rtwGetWpaIe, getWpaIeLoop, List.drop_nil, hnull]
      rfl
    · exact getWpaIeLoop_scan len (a := []) hpie.symm hfits hcut hlimit (by rw [hpie, hlimit]) hlt
        (by omega) (by omega) (by omega)
  rw [WpaIeCond, ← hsafe]
  constructor
  · intro h
    have hint := toInt_ofNat_of_lt (show pie.length < 2 ^ 31 by omega)
    obtain ⟨r, l, hret, hin⟩ := h 0 (BitVec.ofNat 32 pie.length) hint
    have hin' := fun p hp => (hin p hp).1
    exact ⟨r, ((bind_lenAt_iff hin').mp ((hscan _ _ hint _).mp hret)).1, hin'⟩
  · rintro ⟨r, hr, hin⟩ len limit hlimit
    refine ⟨r, _, (hscan _ _ hlimit _).mpr ((bind_lenAt_iff hin).mpr ⟨hr, rfl⟩), ?_⟩
    rintro p rfl
    exact ⟨hin p rfl, Int.sub_add_cancel _ _⟩

end Wpa

/-! ## `rtw_ies_remove_ie` -/

/-- What is kept of the elements, whether one is removed, and what is behind them afterwards. When an
element is removed, the last bytes in the buffer stay there. -/
def removeIes (test : List Byte → Option Bool) (rem : List Byte) :
    List Ie → List Byte → Option (Bool × List Ie × List Byte)
  | [], tail =>
    (scanCut test rem tail 0).bind fun r => if r.isSome then none else some (false, [], tail)
  | e :: es, tail =>
    (test (ieFormat.encode (e :: es) ++ (rem ++ tail))).bind fun hit =>
      if hit then
        (removeIes test rem es ((ieFormat.enc e ++ (ieFormat.encode es ++ (rem ++ tail))).drop
          (ieFormat.encode es ++ rem).length)).map fun (_, kept, tail) => (true, kept, tail)
      else (removeIes test rem es tail).map fun (removed, kept, tail) => (removed, e :: kept, tail)

section Remove

variable {a rem tail mem : List Byte} {es : List Ie} {eid : Byte} {oui : Option (List Byte)}
  {m n ies_len search_len : ℕ} {ret : Bool}

/-- What is done at an element that is found. -/
def removeAt (eid : Byte) (oui : Option (List Byte)) (m n : ℕ) (ret : Bool) (mem : List Byte)
    (ies_len : ℕ) : Option ℕ → Option (Bool × List Byte × ℕ)
  | none => some (ret, mem, ies_len)
  | some p =>
    mem[p + 1]?.bind fun len =>
      (memmove mem p (p + (len.toNat + 2)) (usub ies_len (p + (len.toNat + 2)))).bind fun mem =>
        removeIeLoop eid oui m n true mem (usub ies_len (len.toNat + 2)) p
          (usub ies_len (p + (len.toNat + 2)))

theorem usub_add_left (k x y : ℕ) : usub (k + x) (k + y) = usub x y := by
  rw [usub, usub, Nat.add_assoc, Nat.add_sub_add_left]

/-- An iteration, by the search. -/
theorem removeIeLoop_succ (hmem : mem = a ++ (ieFormat.encode es ++ (rem ++ tail)))
    (hfits : ieFormat.Fits es) (hcut : Cut rem)
    (hies : ies_len = a.length + (ieFormat.encode es ++ rem).length)
    (hlt : mem.length + 257 < 2 ^ 31) (hm : es.length + 2 ≤ m) :
    removeIeLoop eid oui m (n + 1) ret mem ies_len a.length (ieFormat.encode es ++ rem).length =
      (scanIes (ieTest eid oui) rem tail es a.length).bind
        (removeAt eid oui m n ret mem ies_len) := by
  have hlen : mem.length = a.length + (ieFormat.encode es ++ rem).length + tail.length := by
    rw [hmem]
    simp only [List.length_append]
    omega
  have hscan := rtwGetIeEx_scan eid oui false true tail hfits hcut (by omega) hm
  have hshift : scanIes (ieTest eid oui) rem tail es (0 + a.length) =
      (scanIes (ieTest eid oui) rem tail es 0).map (Option.map (· + a.length)) :=
    scanIes_add es 0 a.length
  rw [Nat.zero_add] at hshift
  have hdrop : mem.drop a.length = ieFormat.encode es ++ (rem ++ tail) := by
    rw [hmem, List.drop_left]
  have hread : ∀ p, mem[p + a.length + 1]? = (ieFormat.encode es ++ (rem ++ tail))[p + 1]? :=
    fun p => by rw [hmem, Nat.add_comm p, Nat.add_assoc, read_append]
  have hres : ∀ p, exResult (ieFormat.encode es ++ (rem ++ tail)) false true (some p) =
      (ieFormat.encode es ++ (rem ++ tail))[p + 1]?.map fun len => some ⟨p, len.toNat + 2, []⟩ := by
    intro p
    rw [exResult, foundAt]
    rcases (ieFormat.encode es ++ (rem ++ tail))[p + 1]? with _ | l <;> rfl
  have hat : ∀ r, removeAt eid oui m n ret mem ies_len r = r.elim (some (ret, mem, ies_len))
      fun p => mem[p + 1]?.bind fun len =>
        (memmove mem p (p + (len.toNat + 2)) (usub ies_len (p + (len.toNat + 2)))).bind fun mem =>
          removeIeLoop eid oui m n true mem (usub ies_len (len.toNat + 2)) p
            (usub ies_len (p + (len.toNat + 2))) := fun r => by
    rcases r with _ | p <;> rfl
  have hadd := usub_add_left a.length
  rw [removeIeLoop, hdrop, hscan, hshift]
  -- the kernel must not compute with `2 ^ 32`
  generalize removeAt eid oui m n ret mem ies_len = at' at hat
  generalize usub = sub at hadd hat
  rcases scanIes (ieTest eid oui) rem tail es 0 with _ | _ | p
  case none => rfl
  case some.none => exact (hat none).symm
  case some.some =>
    rw [Option.bind_some, hres, Option.map_some, Option.map_some, Option.bind_some, hat,
      Option.elim_some, hread]
    rcases (ieFormat.encode es ++ (rem ++ tail))[p + 1]? with _ | l
    case none => rfl
    case some =>
      rw [Option.map_some, Option.bind_eq_bind, Option.bind_some, Option.bind_some]
      refine (if_neg (Nat.succ_ne_zero _)).trans ?_
      rw [hies, Nat.add_comm p a.length, Nat.add_assoc, hadd]
      rfl

/-- What is behind an element is moved over it. -/
theorem memmove_front (a x t tail : List Byte) :
    memmove (a ++ (x ++ (t ++ tail))) a.length (a.length + x.length) t.length =
      some (a ++ (t ++ (x ++ (t ++ tail)).drop t.length)) := by
  have hslice : slice (a ++ (x ++ (t ++ tail))) (a.length + x.length) t.length = t := by
    rw [slice_append_right]
    exact slice_middle rfl rfl
  rw [memmove, hslice, if_pos (by simp only [List.length_append]; omega), memcpy, List.take_left,
    List.drop_length_add_append, List.append_assoc]

theorem scanCut_eq_some {test : List Byte → Option Bool} {off p : ℕ}
    (h : scanCut test rem tail off = some (some p)) : rem ≠ [] ∧ p = off := by
  rw [scanCut] at h
  split at h
  · cases h
  case isFalse hrem =>
    refine ⟨hrem, ?_⟩
    obtain ⟨hit, -, h⟩ := Option.bind_eq_some_iff.mp h
    cases hit
    case false =>
      obtain ⟨len, -, h⟩ := Option.map_eq_some_iff.mp h
      cases h
    case true =>
      cases h
      rfl

/-- The loop keeps the elements that `removeIes` keeps; the induction is on the elements. -/
theorem removeIeLoop_eq (hmem : mem = a ++ (ieFormat.encode es ++ (rem ++ tail)))
    (hfits : ieFormat.Fits es) (hcut : Cut rem)
    (hies : ies_len = a.length + (ieFormat.encode es ++ rem).length)
    (hlt : mem.length + 257 < 2 ^ 31) (hm : es.length + 2 ≤ m) (hn : es.length + 1 ≤ n) :
    removeIeLoop eid oui m n ret mem ies_len a.length (ieFormat.encode es ++ rem).length =
      (removeIes (ieTest eid oui) rem es tail).map fun (removed, kept, tail) =>
        (ret || removed, a ++ (ieFormat.encode kept ++ (rem ++ tail)),
          a.length + (ieFormat.encode kept ++ rem).length) := by
  induction es generalizing a tail mem ies_len n ret with
  | nil =>
    obtain ⟨n, rfl⟩ := Nat.exists_eq_add_of_le' (show 1 ≤ n by omega)
    rw [removeIeLoop_succ hmem hfits hcut hies hlt hm]
    rw [Format.encode_nil, List.nil_append] at hmem hies
    have hshift : scanIes (ieTest eid oui) rem tail [] (0 + a.length) =
        (scanIes (ieTest eid oui) rem tail [] 0).map (Option.map (· + a.length)) :=
      scanIes_add [] 0 a.length
    rw [Nat.zero_add] at hshift
    rw [hshift, removeIes, scanIes]
    rcases hscan : scanCut (ieTest eid oui) rem tail 0 with _ | _ | p
    case none => rfl
    case some.none =>
      rw [Option.map_some, Option.bind_some, Option.map_none, removeAt, hmem, hies]
      simp
    case some.some =>
      -- what is cut off is found, and the length of what is left is below zero
      have hlen : mem.length = a.length + rem.length + tail.length := by
        rw [hmem]
        simp only [List.length_append]
        omega
      obtain ⟨hrem, rfl⟩ := scanCut_eq_some hscan
      have hread : mem[0 + a.length + 1]? = (rem ++ tail)[1]? := by
        rw [hmem, Nat.zero_add, read_append]
      rw [Option.map_some, Option.bind_some, Option.map_some, removeAt, hread]
      rcases hl : (rem ++ tail)[1]? with _ | l
      case none => rfl
      case some =>
        have hcutlen := hcut.length_lt hrem tail hl
        have hle := l.isLt
        have hsub : 2 ^ 32 - 257 ≤ usub ies_len (0 + a.length + (l.toNat + 2)) := by
          rw [hies, Nat.zero_add, usub_add_left, usub]
          omega
        rw [Option.bind_some, memmove, if_neg (by omega)]
        rfl
  | cons e es ih =>
    obtain ⟨n, rfl⟩ := Nat.exists_eq_add_of_le' (show 1 ≤ n by omega)
    obtain ⟨he, hfits'⟩ := ieFormat.fits_cons.mp hfits
    rw [List.length_cons] at hn
    rw [removeIeLoop_succ hmem hfits hcut hies hlt hm, scanIes, removeIes]
    rw [List.length_cons] at hm
    have hlen : mem.length = ies_len + tail.length := by
      rw [hmem, hies]
      simp only [List.length_append]
      omega
    have henc : (ieFormat.encode (e :: es) ++ rem).length =
        (ieFormat.enc e).length + (ieFormat.encode es ++ rem).length := by
      rw [Format.encode_cons, List.append_assoc, List.length_append]
    rw [henc] at hies
    have hsplit : mem = a ++ (ieFormat.enc e ++ ((ieFormat.encode es ++ rem) ++ tail)) := by
      rw [hmem, Format.encode_cons]
      simp only [List.append_assoc]
    rcases ieTest eid oui (ieFormat.encode (e :: es) ++ (rem ++ tail)) with _ | _ | _
    case none => rfl
    case some.false =>
      have hnext : mem = (a ++ ieFormat.enc e) ++ (ieFormat.encode es ++ (rem ++ tail)) := by
        rw [hsplit]
        simp only [List.append_assoc]
      have hies' : ies_len = (a ++ ieFormat.enc e).length + (ieFormat.encode es ++ rem).length := by
        have ha : (a ++ ieFormat.enc e).length = a.length + (ieFormat.enc e).length :=
          List.length_append
        rw [hies, ha, Nat.add_assoc]
      have hrest : removeIeLoop eid oui m (n + 1) ret mem ies_len (a ++ ieFormat.enc e).length
          (ieFormat.encode es ++ rem).length = _ :=
        ih hnext hfits' hies' hlt (by omega) (by omega)
      rw [removeIeLoop_succ hnext hfits' hcut hies' hlt (by omega)] at hrest
      rw [Option.bind_some, Option.bind_some, if_neg Bool.false_ne_true, if_neg Bool.false_ne_true,
        ← List.length_append, hrest, Option.map_map]
      congr 1
      funext x
      simp only [Function.comp, Format.encode_cons, List.append_assoc, List.length_append,
        Nat.add_assoc]
    case some.true =>
      have hread : mem[a.length + 1]? = some (BitVec.ofNat 8 e.body.length) := by
        rw [hsplit, read_append]
        rfl
      have hl : (BitVec.ofNat 8 e.body.length).toNat + 2 = (ieFormat.enc e).length := by
        rw [toNat_length he, Format.length_enc, Nat.add_comm]
        rfl
      have hleft : usub ies_len (a.length + (ieFormat.enc e).length) =
          (ieFormat.encode es ++ rem).length := by
        rw [usub_eq (by omega) (by omega)]
        omega
      have hnew : usub ies_len (ieFormat.enc e).length =
          a.length + (ieFormat.encode es ++ rem).length := by
        rw [usub_eq (by omega) (by omega)]
        omega
      rw [Option.bind_some, Option.bind_some, if_pos rfl, if_pos rfl, Option.bind_some, removeAt,
        hread, Option.bind_some, hl, hleft, hnew, hsplit, memmove_front, Option.bind_some]
      have hmove : a ++ ((ieFormat.encode es ++ rem) ++
          (ieFormat.enc e ++ ((ieFormat.encode es ++ rem) ++ tail)).drop
            (ieFormat.encode es ++ rem).length) =
          a ++ (ieFormat.encode es ++ (rem ++
            (ieFormat.enc e ++ (ieFormat.encode es ++ (rem ++ tail))).drop
              (ieFormat.encode es ++ rem).length)) := by
        simp only [List.append_assoc]
      have hlenmove : (a ++ ((ieFormat.encode es ++ rem) ++
          (ieFormat.enc e ++ ((ieFormat.encode es ++ rem) ++ tail)).drop
            (ieFormat.encode es ++ rem).length)).length = mem.length := by
        rw [hlen, hies]
        simp only [List.length_append, List.length_drop]
        omega
      rw [ih hmove hfits' rfl (by rw [hlenmove]; exact hlt) (by omega) (by omega), Option.map_map]
      congr 1
      funext x
      simp only [Function.comp, Bool.true_or, Bool.or_true]

end Remove

section RemoveOk

variable {test : List Byte → Option Bool} {p : Ie → Prop} [DecidablePred p] {rem : List Byte}

/-- The tests do not fail, what is cut off is not removed and has a length byte, and in a sequence of
elements only the right ones are removed. -/
def RemoveCond (test : List Byte → Option Bool) (p : Ie → Prop) (rem : List Byte) :
    List Ie → List Byte → Prop
  | [], tail => rem = [] ∨ test (rem ++ tail) = some false ∧ 2 ≤ (rem ++ tail).length
  | e :: es, tail =>
    test (ieFormat.encode (e :: es) ++ (rem ++ tail)) = some true ∧ (rem = [] → p e) ∧
        RemoveCond test p rem es ((ieFormat.enc e ++ (ieFormat.encode es ++ (rem ++ tail))).drop
          (ieFormat.encode es ++ rem).length) ∨
      test (ieFormat.encode (e :: es) ++ (rem ++ tail)) = some false ∧
        RemoveCond test p rem es tail

instance RemoveCond.decidable (test : List Byte → Option Bool) (p : Ie → Prop) [DecidablePred p]
    (rem : List Byte) : (es : List Ie) → (tail : List Byte) → Decidable (RemoveCond test p rem es tail)
  | [], _ => inferInstanceAs (Decidable (_ ∨ _))
  | e :: es, tail =>
    have := RemoveCond.decidable test p rem es tail
    have := RemoveCond.decidable test p rem es
      ((ieFormat.enc e ++ (ieFormat.encode es ++ (rem ++ tail))).drop
        (ieFormat.encode es ++ rem).length)
    inferInstanceAs (Decidable (_ ∨ _))

/-- The buffer does not become shorter. -/
theorem length_removeIes {es kept : List Ie} {tail tail' : List Byte} {removed : Bool}
    (h : removeIes test rem es tail = some (removed, kept, tail')) :
    (ieFormat.encode kept).length + tail'.length = (ieFormat.encode es).length + tail.length := by
  induction es generalizing tail kept tail' removed with
  | nil =>
    obtain ⟨r, -, h⟩ := Option.bind_eq_some_iff.mp h
    split at h
    · cases h
    · cases h
      rfl
  | cons e es ih =>
    obtain ⟨hit, -, h⟩ := Option.bind_eq_some_iff.mp h
    split at h
    · obtain ⟨⟨removed, kept, tail'⟩, hrest, h⟩ := Option.map_eq_some_iff.mp h
      cases h
      rw [ih hrest, Format.encode_cons]
      simp only [List.length_append, List.length_drop]
      omega
    · obtain ⟨⟨removed, kept, tail'⟩, hrest, h⟩ := Option.map_eq_some_iff.mp h
      cases h
      have := ih hrest
      simp only [Format.encode_cons, List.length_append]
      omega

/-- Whether an element is removed, by the number of those that are kept. -/
theorem removed_iff {es kept : List Ie} {tail tail' : List Byte} {removed : Bool}
    (h : removeIes test rem es tail = some (removed, kept, tail')) :
    kept.Sublist es ∧ (removed = true ↔ kept.length < es.length) := by
  induction es generalizing tail kept tail' removed with
  | nil =>
    obtain ⟨r, -, h⟩ := Option.bind_eq_some_iff.mp h
    split at h
    · cases h
    · cases h
      exact ⟨.slnil, by simp⟩
  | cons e es ih =>
    obtain ⟨hit, -, h⟩ := Option.bind_eq_some_iff.mp h
    split at h
    · obtain ⟨⟨removed, kept, tail'⟩, hrest, h⟩ := Option.map_eq_some_iff.mp h
      cases h
      have hsub := (ih hrest).1
      exact ⟨hsub.cons e, iff_of_true rfl (Nat.lt_succ_of_le hsub.length_le)⟩
    · obtain ⟨⟨removed, kept, tail'⟩, hrest, h⟩ := Option.map_eq_some_iff.mp h
      cases h
      rw [List.length_cons, List.length_cons, Nat.succ_lt_succ_iff]
      exact ⟨(ih hrest).1.cons_cons e, (ih hrest).2⟩

/-- All right elements are removed. -/
theorem length_kept_le (htest : ∀ e es tail, p e →
      test (ieFormat.encode (e :: es) ++ tail) = some true)
    {es kept : List Ie} {tail tail' : List Byte} {removed : Bool}
    (h : removeIes test rem es tail = some (removed, kept, tail')) :
    kept.length ≤ (es.filter (¬ p ·)).length := by
  induction es generalizing tail kept tail' removed with
  | nil => exact (removed_iff h).1.length_le
  | cons e es ih =>
    obtain ⟨hit, hhit, h⟩ := Option.bind_eq_some_iff.mp h
    split at h
    · obtain ⟨⟨removed, kept, tail'⟩, hrest, h⟩ := Option.map_eq_some_iff.mp h
      cases h
      refine Nat.le_trans (ih hrest) ?_
      rw [List.filter_cons]
      split
      · exact Nat.le_succ _
      · exact Nat.le_refl _
    case isFalse hno =>
      obtain ⟨⟨removed, kept, tail'⟩, hrest, h⟩ := Option.map_eq_some_iff.mp h
      cases h
      have hnot : ¬ p e := fun hp => by
        rw [htest e es (rem ++ _) hp] at hhit
        cases hhit
        exact hno rfl
      rw [List.filter_cons, if_pos (decide_eq_true hnot), List.length_cons, List.length_cons]
      exact Nat.succ_le_succ (ih hrest)

/-- The loop is safe, and right in a sequence of elements, if and only if the condition holds. -/
theorem removeIes_iff (htest : ∀ e es tail, p e →
      test (ieFormat.encode (e :: es) ++ tail) = some true) (es : List Ie) (tail : List Byte) :
    (∃ removed kept tail', removeIes test rem es tail = some (removed, kept, tail') ∧
        (rem = [] → kept = es.filter (¬ p ·))) ↔ RemoveCond test p rem es tail := by
  induction es generalizing tail with
  | nil =>
    rw [RemoveCond, removeIes, scanCut]
    by_cases hrem : rem = []
    · rw [if_pos hrem]
      exact iff_of_true ⟨false, [], tail, rfl, fun _ => rfl⟩ (.inl hrem)
    · rw [if_neg hrem, or_iff_right hrem]
      have hread : 2 ≤ (rem ++ tail).length ↔ ∃ len, (rem ++ tail)[1]? = some len := by
        constructor
        · exact fun h => ⟨_, List.getElem?_eq_getElem h⟩
        · rintro ⟨_, h⟩
          exact (List.getElem?_eq_some_iff.mp h).1
      rw [hread]
      rcases test (rem ++ tail) with _ | _ | _
      case none => simp
      case some.false =>
        rcases (rem ++ tail)[1]? with _ | len
        · simp
        · exact iff_of_true ⟨false, [], tail, rfl, fun h => (hrem h).elim⟩ ⟨rfl, len, rfl⟩
      case some.true => simp
  | cons e es ih =>
    have hright := htest e es (rem ++ tail)
    rw [removeIes, RemoveCond]
    generalize test (ieFormat.encode (e :: es) ++ (rem ++ tail)) = hit at hright
    generalize (ieFormat.enc e ++ (ieFormat.encode es ++ (rem ++ tail))).drop
      (ieFormat.encode es ++ rem).length = stale
    rcases hit with _ | _ | _
    case none => simp
    case some.false =>
      have hnot : ¬ p e := fun hp => by cases hright hp
      have hfilter : (e :: es).filter (¬ p ·) = e :: es.filter (¬ p ·) := by
        rw [List.filter_cons, if_pos (decide_eq_true hnot)]
      rw [hfilter, ← ih tail]
      constructor
      · rintro ⟨removed, kept, tail', h, hkept⟩
        obtain ⟨⟨removed, kept, tail'⟩, hrest, h⟩ := Option.map_eq_some_iff.mp h
        cases h
        exact .inr ⟨rfl, removed, kept, tail', hrest, fun hrem => (List.cons.inj (hkept hrem)).2⟩
      · rintro (⟨h, -⟩ | ⟨-, removed, kept, tail', hrest, hkept⟩)
        · cases h
        · refine ⟨removed, e :: kept, tail', ?_, fun hrem => by rw [hkept hrem]⟩
          rw [Option.bind_some, if_neg Bool.false_ne_true, hrest]
          rfl
    case some.true =>
      rw [← ih stale]
      constructor
      · rintro ⟨removed, kept, tail', h, hkept⟩
        obtain ⟨⟨removed, kept, tail'⟩, hrest, h⟩ := Option.map_eq_some_iff.mp h
        cases h
        have hp : rem = [] → p e := by
          intro hrem
          by_contra hnot
          -- an element more would be kept than there are
          have hle := length_kept_le htest hrest
          have hlen := congrArg List.length (hkept hrem)
          rw [List.filter_cons, if_pos (decide_eq_true hnot), List.length_cons] at hlen
          omega
        refine .inl ⟨rfl, hp, removed, kept, tail', hrest, fun hrem => ?_⟩
        rw [hkept hrem, List.filter_cons, if_neg]
        simpa using hp hrem
      · rintro (⟨-, hp, removed, kept, tail', hrest, hkept⟩ | ⟨h, -⟩)
        · refine ⟨true, kept, tail', ?_, fun hrem => ?_⟩
          · rw [Option.bind_some, if_pos rfl, hrest]
            rfl
          · rw [hkept hrem, List.filter_cons, if_neg]
            simpa using hp hrem
        · cases h

end RemoveOk

section GetIe

variable {bs : List Byte} {offset : ℕ} {eid : Byte} {oui : Option (List Byte)}

/-- `rtw_ies_remove_ie` returns, reads and writes only inside the buffer; and where the bytes from
`offset` on are a sequence of elements, it leaves those that are not searched for. -/
def RemoveIeOk (bs : List Byte) (offset : ℕ) (eid : Byte) (oui : Option (List Byte)) : Prop :=
  ∃ ret ies ies_len,
    Returns (fun n => rtwIesRemoveIe n bs bs.length offset eid oui) (ret, ies, ies_len) ∧
    ies.length = bs.length ∧ ies_len ≤ bs.length ∧
    ∀ es, ieFormat.Fits es → offset ≤ bs.length → bs.drop offset = ieFormat.encode es →
      ies.take ies_len = bs.take offset ++ ieFormat.encode (es.filter (¬ IsIe eid oui ·)) ∧
      ies_len = offset + (ieFormat.encode (es.filter (¬ IsIe eid oui ·))).length ∧
      (ret = true ↔ ∃ e ∈ es, IsIe eid oui e)

/-- At all elements with the identifier the comparison stays inside the buffer, what is cut off is
not removed and has a length byte, and in a sequence of elements the bytes behind an element that is
shorter than the OUI do not make it one that is removed. -/
def RemoveIeCond (bs : List Byte) (offset : ℕ) (eid : Byte) (oui : Option (List Byte)) : Prop :=
  RemoveCond (ieTest eid oui) (IsIe eid oui) (cutOff (bs.drop offset)) (elems (bs.drop offset)) []

instance (bs : List Byte) (offset : ℕ) (eid : Byte) (oui : Option (List Byte)) :
    Decidable (RemoveIeCond bs offset eid oui) :=
  inferInstanceAs (Decidable (RemoveCond _ _ _ _ _))

theorem take_kept {a t tail : List Byte} (h : a.length = offset) :
    (a ++ (t ++ ([] ++ tail))).take (offset + t.length) = a ++ t := by
  rw [List.nil_append, ← List.append_assoc, ← h, ← List.length_append, List.take_left]

theorem removeIeOk_iff (hlt : bs.length + 257 < 2 ^ 31) :
    RemoveIeOk bs offset eid oui ↔ RemoveIeCond bs offset eid oui := by
  have hdrop := encode_elems_append (bs.drop offset)
  have hfits := fits_elems (bs.drop offset)
  have hcut := cut_cutOff (bs.drop offset)
  rcases Nat.lt_or_ge offset bs.length with hoff | hoff
  · have htake : (bs.take offset).length = offset := List.length_take_of_le (Nat.le_of_lt hoff)
    have hmem : bs = bs.take offset ++ (ieFormat.encode (elems (bs.drop offset)) ++
        (cutOff (bs.drop offset) ++ [])) := by
      rw [List.append_nil, hdrop, List.take_append_drop]
    have hlen : (ieFormat.encode (elems (bs.drop offset)) ++ cutOff (bs.drop offset)).length =
        bs.length - offset := by rw [hdrop, List.length_drop]
    have hscan : ∀ x, Returns (fun n => rtwIesRemoveIe n bs bs.length offset eid oui) x ↔
        (removeIes (ieTest eid oui) (cutOff (bs.drop offset)) (elems (bs.drop offset)) []).map
          (fun (removed, kept, tail) => (removed, bs.take offset ++
            (ieFormat.encode kept ++ (cutOff (bs.drop offset) ++ tail)),
            offset + (ieFormat.encode kept ++ cutOff (bs.drop offset)).length)) = some x := by
      refine returns_iff ((elems (bs.drop offset)).length + 2) fun n hn => ?_
      have hloop : removeIeLoop eid oui n n false bs bs.length (bs.take offset).length
          (ieFormat.encode (elems (bs.drop offset)) ++ cutOff (bs.drop offset)).length = _ :=
        removeIeLoop_eq hmem hfits hcut (by rw [htake, hlen]; omega) hlt hn (by omega)
      rw [rtwIesRemoveIe, if_neg (Nat.not_le.mpr hoff), usub_eq (Nat.le_of_lt hoff) (by omega),
        ← hlen]
      simp only [htake, Bool.false_or] at hloop
      exact hloop
    rw [RemoveIeCond, ← removeIes_iff fun e es tail h => ieTest_of_isIe h es tail]
    generalize cutOff (bs.drop offset) = rem at *
    generalize elems (bs.drop offset) = es at *
    constructor
    · rintro ⟨ret, ies, ies_len, hret, -, -, hright⟩
      obtain ⟨⟨removed, kept, tail⟩, hrest, hx⟩ := Option.map_eq_some_iff.mp ((hscan _).mp hret)
      cases hx
      refine ⟨ret, kept, tail, hrest, ?_⟩
      rintro rfl
      rw [List.append_nil] at hdrop
      have hbytes := (hright es hfits (Nat.le_of_lt hoff) hdrop.symm).1
      rw [List.append_nil, take_kept htake] at hbytes
      have hsub := (removed_iff hrest).1
      exact (elems_unique (fun e he => hfits e (hsub.subset he)) cut_nil
        (fun e he => hfits e (List.mem_filter.mp he).1) cut_nil
        (by rw [List.append_nil, List.append_nil]; exact List.append_cancel_left hbytes)).1
    · rintro ⟨removed, kept, tail, hrest, hkept⟩
      have hlength := length_removeIes hrest
      rw [List.length_nil] at hlength
      have hall : bs.length = offset + (ieFormat.encode es).length + rem.length := by
        rw [List.length_append] at hlen
        omega
      refine ⟨removed, _, _, (hscan _).mpr (by rw [hrest]; rfl), ?_, ?_, ?_⟩
      · simp only [List.length_append, htake]
        omega
      · simp only [List.length_append]
        omega
      · intro es' hes' hle heq
        obtain ⟨rfl, rfl⟩ := elems_unique hes' cut_nil hfits hcut
          (by rw [List.append_nil, hdrop, heq])
        obtain ⟨hsub, hremoved⟩ := removed_iff hrest
        rw [hkept rfl] at hremoved ⊢
        rw [List.append_nil, take_kept htake]
        refine ⟨rfl, rfl, hremoved.trans ?_⟩
        rw [List.length_filter_lt_length_iff_exists]
        simp

  · -- nothing is searched
    have hnil : bs.drop offset = [] := List.drop_eq_nil_of_le hoff
    rw [RemoveIeCond, hnil]
    refine iff_of_true ⟨false, bs, bs.length, ⟨0, fun n _ => if_pos hoff⟩, rfl, Nat.le_refl _, ?_⟩
      (.inl rfl)
    intro es hes hle heq
    obtain ⟨helems, -⟩ := elems_encode hes
    obtain rfl : [] = es := by rw [← helems, ← heq, hnil]; rfl
    rw [List.take_length, List.take_of_length_le hoff]
    exact ⟨(List.append_nil _).symm, Nat.le_antisymm hoff hle, by simp⟩

/-- The four functions are safe, and right in a sequence of elements, if and only if these conditions
on the bytes hold. -/
theorem getIe_iff (bs : List Byte) (hlt : bs.length + 257 < 2 ^ 31) :
    (∀ index, GetIeOk bs index ↔ GetIeCond bs index) ∧
      (∀ eid oui, GetIeExOk bs eid oui ↔ GetIeExCond bs eid oui) ∧
      (WpaIeOk bs ↔ WpaIeCond bs) ∧
      ∀ offset eid oui, RemoveIeOk bs offset eid oui ↔ RemoveIeCond bs offset eid oui :=
  ⟨fun _ => getIeOk_iff hlt, fun _ _ => getIeExOk_iff hlt, wpaIeOk_iff hlt,
    fun _ _ _ => removeIeOk_iff hlt⟩

/-- Two elements: an SSID, and a vendor element with the WPA OUI, type and version. -/
def twoElems : List Byte := [0, 2, 65, 66, 0xdd, 6, 0x00, 0x50, 0xf2, 0x01, 1, 0]

/-- In this sequence all four are safe and right. -/
theorem getIe_iff_twoElems :
    GetIeOk twoElems 0xdd ∧ GetIeExOk twoElems 0xdd (some [0x00, 0x50, 0xf2]) ∧ WpaIeOk twoElems ∧
      RemoveIeOk twoElems 0 0xdd (some [0x00, 0x50, 0xf2]) := by
  obtain ⟨hget, hex, hwpa, hremove⟩ := getIe_iff twoElems (by decide)
  exact ⟨(hget _).mpr (by decide), (hex _ _).mpr (by decide), hwpa.mpr (by decide),
    (hremove _ _ _).mpr (by decide)⟩

/-- The header of a vendor element whose body is cut off. -/
def cutVendor : List Byte := [0xdd, 5]

/-- A vendor element without a body, and one with the identifier 1 whose header is like an OUI. -/
def emptyVendor : List Byte := [0xdd, 0, 1, 1, 7]

/-- What is cut off is returned (and removed), or read behind its end; and an empty element is taken
for one with the OUI. -/
theorem cutVendor_not_ok :
    (¬ GetIeOk cutVendor 0xdd ∧ ¬ GetIeExOk cutVendor 0xdd none ∧ ¬ WpaIeOk cutVendor ∧
        ¬ RemoveIeOk cutVendor 0 0xdd none) ∧
      ¬ GetIeExOk emptyVendor 0xdd (some [1, 1]) ∧
      ¬ RemoveIeOk emptyVendor 0 0xdd (some [1, 1]) := by
  have hcut : cutVendor.length + 257 < 2 ^ 31 := by decide
  have hempty : emptyVendor.length + 257 < 2 ^ 31 := by decide
  rw [getIeOk_iff hcut, getIeExOk_iff hcut, wpaIeOk_iff hcut, removeIeOk_iff hcut,
    getIeExOk_iff hempty, removeIeOk_iff hempty]
  decide

end GetIe

end Rtl88x2cu.Ieee80211.GetIe
