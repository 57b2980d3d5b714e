import Rtl88x2cu.Ieee80211.Ie
import Rtl88x2cu.Lib.WhileLoop

/-!
# Merging the P2P elements of a frame

`rtw_get_p2p_merged_ies_len` computes how long the merged element will be and `rtw_p2p_merge_ies`
writes it (`core/rtw_ieee80211.c`). Both walk over the elements with an `int` index; the first one
adds up the lengths in an `int`, the second one in an `u8`.

`mergeLoop` and `mergeLoop_eq_none` say what the second loop does to a sequence of elements,
`rtwP2pMergeIes_merges_iff` what it means for the merged element.
-/

namespace Rtl88x2cu.Ieee80211.P2pMerge

open Bytes Tlv

/-! ## Model -/

/-- `OUI`, with the type of the element. -/
def oui : List Byte := [0x50, 0x6F, 0x9A, 0x09]

/-- `ELOUI`. -/
def eloui : List Byte := [0xDD, 0x00, 0x50, 0x6F, 0x9A, 0x09]

/-- `in_ie + i`, where it is not in front of the buffer. -/
def ptr (i : BitVec 32) : Option ℕ := if 0 ≤ i.toInt then some i.toNat else none

/-- The variables of `rtw_get_p2p_merged_ies_len`. -/
structure LenState where
  i : BitVec 32
  len : BitVec 32

/-- The body of its loop. -/
def mergedLenBody (in_ie : List Byte) (s : LenState) : Option LenState := do
  let p ← ptr s.i
  let found ← isVendorIe oui in_ie p
  let length ← in_ie[p + 1]?
  some
    { i := s.i + (length.setWidth 32 + 2)
      len := if found then s.len + (length.setWidth 32 - 4) else s.len }

/-- `rtw_get_p2p_merged_ies_len`. -/
def rtwGetP2pMergedIesLen (n : ℕ) (in_ie : List Byte) (in_len : ℕ) : Option ℕ := do
  let s ← whileLoop (fun s => s.i.toNat < in_len) (mergedLenBody in_ie) n ⟨0, 0⟩
  some (s.len + 4).toNat

/-- The variables of `rtw_p2p_merge_ies`; `merged` has been written. -/
structure MergeState where
  i : BitVec 32
  len : Byte
  merged : List Byte

/-- `_rtw_memcpy(merge_ie, pIE->data + 4, pIE->Length - 4)`, where the count is not negative. -/
def restOfIe (in_ie : List Byte) (p : ℕ) (length : Byte) : Option (List Byte) :=
  if 4 ≤ length.toNat ∧ p + 2 + length.toNat ≤ in_ie.length then
    some (slice in_ie (p + 2 + 4) (length.toNat - 4))
  else none

/-- The body of its loop. -/
def mergeBody (in_ie : List Byte) (s : MergeState) : Option MergeState := do
  let p ← ptr s.i
  let found ← isVendorIe oui in_ie p
  let length ← in_ie[p + 1]?
  if found then
    (restOfIe in_ie p length).map fun rest =>
      { i := s.i + (length.setWidth 32 + 2), len := s.len + (length - 4),
        merged := s.merged ++ rest }
  else some { s with i := s.i + (length.setWidth 32 + 2) }

/-- `rtw_p2p_merge_ies`: what it writes to `merge_ie`, if that is not `NULL`, and what it
returns. -/
def rtwP2pMergeIes (n : ℕ) (in_ie : List Byte) (in_len : ℕ) (merge_ie : Bool) :
    Option (List Byte × ℕ) :=
  if merge_ie then
    (whileLoop (fun s => s.i.toNat < in_len) (mergeBody in_ie) n ⟨0, 0, eloui⟩).map fun s =>
      (s.merged, s.len.toNat + 4)
  else some ([], 0)

/-! ## The elements of a frame -/

/-- A P2P element. -/
def IsP2p (e : Ie) : Prop := e.id = vendorSpecificIe ∧ e.body.take 4 = oui

instance (e : Ie) : Decidable (IsP2p e) := inferInstanceAs (Decidable (_ ∧ _))

/-- The bodies of the P2P elements, without their OUIs. -/
def bodies (es : List Ie) : List Byte := (es.filter (IsP2p ·)).flatMap (·.body.drop 4)

/-- The element at `off` can be told from a P2P element: the index reaches it, and if it is a vendor
element too short for an OUI, there are more elements behind it and what is read with them is not
the P2P OUI. -/
def Told (off : ℕ) (e : Ie) (es : List Ie) : Prop :=
  off < 2 ^ 31 ∧ (e.id = vendorSpecificIe → e.body.length < 4 →
    4 ≤ (e.body ++ ieFormat.encode es).length ∧ (e.body ++ ieFormat.encode es).take 4 ≠ oui)

/-- So can all elements of a sequence that starts at `off`. -/
def AllTold : ℕ → List Ie → Prop
  | _, [] => True
  | off, e :: es => Told off e es ∧ AllTold (off + (2 + e.body.length)) es

/-- The frame is merged as it should be: behind the bytes `hd` the OUI and the bodies are written,
and both functions return their length. -/
def Merges (hd : List Byte) (es : List Ie) : Prop :=
  ∃ n ret, rtwP2pMergeIes n (ieFormat.encode es) (ieFormat.encode es).length true
      = some (hd ++ (oui ++ bodies es), ret)
    ∧ ret = (oui ++ bodies es).length
    ∧ rtwGetP2pMergedIesLen n (ieFormat.encode es) (ieFormat.encode es).length = some ret

theorem bodies_cons (e : Ie) (es : List Ie) :
    bodies (e :: es) = (if IsP2p e then e.body.drop 4 else []) ++ bodies es := by
  by_cases he : IsP2p e <;> simp [bodies, he]

theorem length_append_bodies (bs : List Byte) (es : List Ie) :
    (bs ++ bodies es).length = bs.length + (bodies es).length := List.length_append

/-! ## One element -/

section Step

variable {a : List Byte} {e : Ie} {es : List Ie}

theorem ptr_ofNat {off : ℕ} (h : off < 2 ^ 32) :
    ptr (BitVec.ofNat 32 off) = if off < 2 ^ 31 then some off else none := by
  rw [ptr, BitVec.toInt_eq_toNat_cond, BitVec.toNat_ofNat, Nat.mod_eq_of_lt h]
  exact if_congr (by split <;> omega) rfl rfl

/-- An element that can be told is. -/
theorem isVendorIe_of_told {off : ℕ} (h : Told off e es) :
    isVendorIe oui (a ++ ieFormat.encode (e :: es)) a.length = some (decide (IsP2p e)) := by
  rw [isVendorIe_append]
  by_cases hid : e.id = vendorSpecificIe
  · by_cases hlen : e.body.length < 4
    · -- a short vendor element: what is compared lies in part behind it
      obtain ⟨hle, hne⟩ := h.2 hid hlen
      have hnot : ¬ IsP2p e := by
        rintro ⟨-, htake⟩
        have := congrArg List.length htake
        rw [List.length_take] at this
        simp only [oui, List.length_cons, List.length_nil] at this
        omega
      have hlong : 2 + oui.length ≤ (ieFormat.encode (e :: es)).length := by
        rw [length_encode_cons]
        exact Nat.add_le_add_left hle 2
      rw [if_pos hid, memcmp_of_le hlong, slice_oui _ _ rfl, decide_eq_false hnot,
        Option.some.injEq]
      exact beq_eq_false_iff_ne.mpr hne
    · have hlong : 2 + oui.length ≤ (ieFormat.encode (e :: es)).length := by
        rw [length_encode_cons, List.length_append]
        change 2 + 4 ≤ _
        omega
      rw [if_pos hid, memcmp_of_le hlong, slice_oui _ _ rfl,
        List.take_append_of_le_length (by omega), Option.some.injEq]
      simp only [IsP2p, hid, true_and, beq_eq_decide]
  · have hnot : ¬ IsP2p e := fun hp => hid hp.1
    rw [if_neg hid, decide_eq_false hnot]

/-- What is copied of a P2P element. -/
theorem restOfIe_append (he : e.body.length ≤ 255) (h4 : 4 ≤ e.body.length) :
    restOfIe (a ++ ieFormat.encode (e :: es)) a.length (BitVec.ofNat 8 e.body.length)
      = some (e.body.drop 4) := by
  have hin : a.length + 2 + e.body.length ≤ (a ++ ieFormat.encode (e :: es)).length := by
    rw [List.length_append, length_encode_cons, List.length_append]
    omega
  rw [restOfIe, toNat_length he, if_pos ⟨h4, hin⟩, Option.some.injEq, Nat.add_assoc,
    slice_append_right, slice, ← List.drop_drop, encode_cons_drop,
    List.drop_append_of_le_length h4]
  exact List.take_left' (List.length_drop ..)

theorem length_of_isP2p (h : IsP2p e) : 4 ≤ e.body.length := by
  have := congrArg List.length h.2
  rw [List.length_take] at this
  simp only [oui, List.length_cons, List.length_nil] at this
  omega

/-- The index behind an element. -/
theorem index_add (off : ℕ) (he : e.body.length ≤ 255) :
    BitVec.ofNat 32 off + ((BitVec.ofNat 8 e.body.length).setWidth 32 + 2)
      = BitVec.ofNat 32 (off + (2 + e.body.length)) := by
  apply BitVec.eq_of_toNat_eq
  simp only [BitVec.toNat_add, BitVec.toNat_ofNat, BitVec.toNat_setWidth,
    BitVec.ofNat_eq_ofNat]
  omega

/-- An iteration of `rtw_get_p2p_merged_ies_len` at an element that can be told. -/
theorem mergedLenBody_of_told (he : e.body.length ≤ 255) (hoff : a.length < 2 ^ 32)
    (h : Told a.length e es) (m : ℕ) :
    mergedLenBody (a ++ ieFormat.encode (e :: es)) ⟨BitVec.ofNat 32 a.length, BitVec.ofNat 32 m⟩
      = some ⟨BitVec.ofNat 32 (a.length + (2 + e.body.length)),
          BitVec.ofNat 32 (m + (if IsP2p e then e.body.drop 4 else []).length)⟩ := by
  rw [mergedLenBody, ptr_ofNat hoff, if_pos h.1]
  simp only [Option.bind_eq_bind, Option.bind_some, isVendorIe_of_told h, read_length,
    index_add _ he,
    decide_eq_true_eq]
  by_cases hp : IsP2p e
  · have h4 := length_of_isP2p hp
    rw [if_pos hp, if_pos hp, List.length_drop, Option.some.injEq, LenState.mk.injEq]
    refine ⟨rfl, BitVec.eq_of_toNat_eq ?_⟩
    simp only [BitVec.toNat_add, BitVec.toNat_sub, BitVec.toNat_ofNat, BitVec.toNat_setWidth,
    BitVec.ofNat_eq_ofNat]
    omega
  · rw [if_neg hp, if_neg hp]
    rfl

/-- An iteration of `rtw_p2p_merge_ies` there. -/
theorem mergeBody_of_told (he : e.body.length ≤ 255) (hoff : a.length < 2 ^ 32)
    (h : Told a.length e es) (m : ℕ) (merged : List Byte) :
    mergeBody (a ++ ieFormat.encode (e :: es))
        ⟨BitVec.ofNat 32 a.length, BitVec.ofNat 8 m, merged⟩
      = some ⟨BitVec.ofNat 32 (a.length + (2 + e.body.length)),
          BitVec.ofNat 8 (m + (if IsP2p e then e.body.drop 4 else []).length),
          merged ++ if IsP2p e then e.body.drop 4 else []⟩ := by
  rw [mergeBody, ptr_ofNat hoff, if_pos h.1]
  simp only [Option.bind_eq_bind, Option.bind_some, isVendorIe_of_told h, read_length,
    index_add _ he,
    decide_eq_true_eq]
  by_cases hp : IsP2p e
  · have h4 := length_of_isP2p hp
    simp only [if_pos hp, restOfIe_append he h4, Option.map_some, List.length_drop,
      Option.some.injEq, MergeState.mk.injEq, true_and, and_true]
    apply BitVec.eq_of_toNat_eq
    simp only [BitVec.toNat_add, BitVec.toNat_sub, BitVec.toNat_ofNat, BitVec.ofNat_eq_ofNat]
    omega
  · simp [hp]

/-- An iteration at an element that cannot be told: either a read is outside the buffer, or a count
is negative. -/
theorem mergeBody_of_not_told (he : e.body.length ≤ 255) (hoff : a.length < 2 ^ 32)
    (h : ¬ Told a.length e es) (len : Byte) (merged : List Byte) :
    mergeBody (a ++ ieFormat.encode (e :: es)) ⟨BitVec.ofNat 32 a.length, len, merged⟩ = none := by
  rw [mergeBody, ptr_ofNat hoff]
  by_cases hlt : a.length < 2 ^ 31
  · rw [if_pos hlt]
    obtain ⟨hid, hshort, hlong⟩ : e.id = vendorSpecificIe ∧ e.body.length < 4
        ∧ (4 ≤ (e.body ++ ieFormat.encode es).length →
          (e.body ++ ieFormat.encode es).take 4 = oui) := by
      by_contra hcon
      exact h ⟨hlt, fun hid hs => by
        by_contra hnot
        exact hcon ⟨hid, hs, fun hle => by
          by_contra hne
          exact hnot ⟨hle, hne⟩⟩⟩
    simp only [Option.bind_eq_bind, Option.bind_some, isVendorIe_append, if_pos hid]
    by_cases hle : 4 ≤ (e.body ++ ieFormat.encode es).length
    · -- the OUI is found, but the element is too short for one
      have hin : 2 + oui.length ≤ (ieFormat.encode (e :: es)).length := by
        rw [length_encode_cons]
        exact Nat.add_le_add_left hle 2
      have hrest : restOfIe (a ++ ieFormat.encode (e :: es)) a.length
          (BitVec.ofNat 8 e.body.length) = none := by
        rw [restOfIe, toNat_length he]
        exact if_neg fun hpos => by omega
      have houi : oui.length = 4 := rfl
      simp only [memcmp_of_le hin, slice_oui _ _ houi, hlong hle, beq_self_eq_true,
        Option.bind_some,
        read_length, if_true, hrest, Option.map_none]
    · -- the comparison reads behind the last element
      have hout : (ieFormat.encode (e :: es)).length < 2 + oui.length := by
        rw [length_encode_cons]
        change _ < 2 + 4
        omega
      rw [memcmp_of_lt hout, Option.bind_none]
  · rw [if_neg hlt]
    rfl

end Step

/-! ## The loops -/

section Loop

variable {a : List Byte} {es : List Ie}

theorem toNat_index {off : ℕ} (h : off < 2 ^ 32) : (BitVec.ofNat 32 off).toNat = off := by
  rw [BitVec.toNat_ofNat, Nat.mod_eq_of_lt h]

/-- The index behind an element, as the length of what has been walked over. -/
theorem length_append_enc (a : List Byte) (e : Ie) :
    (a ++ ieFormat.enc e).length = a.length + (2 + e.body.length) := by
  rw [List.length_append, Format.length_enc]
  rfl

/-- The loops go on at an element. -/
theorem index_lt {e : Ie} (hlen : (a ++ ieFormat.encode (e :: es)).length < 2 ^ 32) :
    a.length < 2 ^ 32
      ∧ (BitVec.ofNat 32 a.length).toNat < (a ++ ieFormat.encode (e :: es)).length := by
  rw [List.length_append, length_encode_cons] at hlen ⊢
  rw [toNat_index] <;> omega

/-- The loop of `rtw_get_p2p_merged_ies_len` over elements that can all be told. -/
theorem mergedLenLoop (hfits : ieFormat.Fits es)
    (hlen : (a ++ ieFormat.encode es).length < 2 ^ 32) (h : AllTold a.length es) (m : ℕ) :
    whileLoop (fun s => s.i.toNat < (a ++ ieFormat.encode es).length)
        (mergedLenBody (a ++ ieFormat.encode es)) es.length
        ⟨BitVec.ofNat 32 a.length, BitVec.ofNat 32 m⟩
      = some ⟨BitVec.ofNat 32 (a ++ ieFormat.encode es).length,
          BitVec.ofNat 32 (m + (bodies es).length)⟩ := by
  induction es generalizing a m with
  | nil =>
    rw [Format.encode_nil, List.append_nil] at hlen ⊢
    rw [whileLoop_of_not]
    · rfl
    · simp [toNat_index hlen]
  | cons e es ih =>
    obtain ⟨he, hfits⟩ := ieFormat.fits_cons.mp hfits
    obtain ⟨hoff, hlt⟩ := index_lt hlen
    have hnext := length_append_enc a e
    have hrest := ih (a := a ++ ieFormat.enc e) hfits (by simpa using hlen)
      (by rw [hnext]; exact h.2) (m + (if IsP2p e then e.body.drop 4 else []).length)
    rw [hnext, List.append_assoc, ← Format.encode_cons] at hrest
    rw [List.length_cons, whileLoop_succ, mergedLenBody_of_told he hoff h.1, Option.bind_some,
      hrest,
      bodies_cons, length_append_bodies, Nat.add_assoc]
    exact decide_eq_true hlt

/-- The loop of `rtw_p2p_merge_ies` over elements that can all be told. -/
theorem mergeLoop (hfits : ieFormat.Fits es)
    (hlen : (a ++ ieFormat.encode es).length < 2 ^ 32) (h : AllTold a.length es) (m : ℕ)
    (merged : List Byte) :
    whileLoop (fun s => s.i.toNat < (a ++ ieFormat.encode es).length)
        (mergeBody (a ++ ieFormat.encode es)) es.length
        ⟨BitVec.ofNat 32 a.length, BitVec.ofNat 8 m, merged⟩
      = some ⟨BitVec.ofNat 32 (a ++ ieFormat.encode es).length,
          BitVec.ofNat 8 (m + (bodies es).length), merged ++ bodies es⟩ := by
  induction es generalizing a m merged with
  | nil =>
    rw [Format.encode_nil, List.append_nil] at hlen ⊢
    rw [whileLoop_of_not]
    · rw [show bodies [] = [] from rfl, List.append_nil]
      rfl
    · simp [toNat_index hlen]
  | cons e es ih =>
    obtain ⟨he, hfits⟩ := ieFormat.fits_cons.mp hfits
    obtain ⟨hoff, hlt⟩ := index_lt hlen
    have hnext := length_append_enc a e
    have hrest := ih (a := a ++ ieFormat.enc e) hfits (by simpa using hlen)
      (by rw [hnext]; exact h.2) (m + (if IsP2p e then e.body.drop 4 else []).length)
      (merged ++ if IsP2p e then e.body.drop 4 else [])
    rw [hnext, List.append_assoc, ← Format.encode_cons] at hrest
    rw [List.length_cons, whileLoop_succ, mergeBody_of_told he hoff h.1, Option.bind_some, hrest,
      bodies_cons, length_append_bodies, Nat.add_assoc, List.append_assoc]
    exact decide_eq_true hlt

/-- It has no outcome where an element cannot be told. -/
theorem mergeLoop_eq_none (hfits : ieFormat.Fits es)
    (hlen : (a ++ ieFormat.encode es).length < 2 ^ 32) (h : ¬ AllTold a.length es) (m : ℕ)
    (merged : List Byte) (n : ℕ) :
    whileLoop (fun s => s.i.toNat < (a ++ ieFormat.encode es).length)
        (mergeBody (a ++ ieFormat.encode es)) n
        ⟨BitVec.ofNat 32 a.length, BitVec.ofNat 8 m, merged⟩ = none := by
  induction es generalizing a m merged n with
  | nil => exact absurd trivial h
  | cons e es ih =>
    obtain ⟨he, hfits⟩ := ieFormat.fits_cons.mp hfits
    obtain ⟨hoff, hlt⟩ := index_lt hlen
    cases n with
    | zero =>
      rw [whileLoop, if_pos]
      exact decide_eq_true hlt
    | succ n =>
      rw [whileLoop_succ]
      swap
      · exact decide_eq_true hlt
      by_cases ht : Told a.length e es
      · have hnext : (a ++ ieFormat.enc e).length = a.length + (2 + e.body.length) := by
          rw [List.length_append, Format.length_enc]
          rfl
        have hrest := ih (a := a ++ ieFormat.enc e) hfits (by simpa using hlen)
          (by rw [hnext]; exact fun hall => h ⟨ht, hall⟩)
          (m + (if IsP2p e then e.body.drop 4 else []).length)
          (merged ++ if IsP2p e then e.body.drop 4 else []) n
        rw [hnext, List.append_assoc, ← Format.encode_cons] at hrest
        rw [mergeBody_of_told he hoff ht, Option.bind_some, hrest]
      · rw [mergeBody_of_not_told he hoff ht, Option.bind_none]

end Loop

/-! ## The merged element -/

section Merge

variable {es : List Ie} (hfits : ieFormat.Fits es) (hlen : (ieFormat.encode es).length < 2 ^ 32)

include hfits hlen

theorem rtwP2pMergeIes_of_allTold (h : AllTold 0 es) :
    rtwP2pMergeIes es.length (ieFormat.encode es) (ieFormat.encode es).length true
      = some ([0xDD, 0x00] ++ (oui ++ bodies es), (bodies es).length % 256 + 4) := by
  have hloop := mergeLoop (a := []) hfits hlen h 0 eloui
  rw [Nat.zero_add, List.nil_append] at hloop
  rw [rtwP2pMergeIes, if_pos rfl]
  refine (congrArg (Option.map _) hloop).trans ?_
  rw [Option.map_some, BitVec.toNat_ofNat]
  rfl

theorem rtwGetP2pMergedIesLen_of_allTold (h : AllTold 0 es) (hsmall : (bodies es).length < 256) :
    rtwGetP2pMergedIesLen es.length (ieFormat.encode es) (ieFormat.encode es).length
      = some (oui ++ bodies es).length := by
  have hloop := mergedLenLoop (a := []) hfits hlen h 0
  rw [Nat.zero_add, List.nil_append] at hloop
  rw [rtwGetP2pMergedIesLen]
  refine (congrArg (Option.bind · _) hloop).trans ?_
  rw [Option.bind_some, Option.some.injEq, List.length_append,
    BitVec.toNat_add,
    BitVec.toNat_ofNat]
  change _ % 2 ^ 32 = 4 + _
  simp only [BitVec.toNat_ofNat, BitVec.ofNat_eq_ofNat]
  omega

/-- Whatever it returns has the two bytes in front. -/
theorem merged_of_rtwP2pMergeIes {n ret : ℕ} {w : List Byte}
    (h : rtwP2pMergeIes n (ieFormat.encode es) (ieFormat.encode es).length true = some (w, ret)) :
    AllTold 0 es ∧ w = [0xDD, 0x00] ++ (oui ++ bodies es)
      ∧ ret = (bodies es).length % 256 + 4 := by
  have hall : AllTold 0 es := by
    by_contra hnot
    have hloop := mergeLoop_eq_none (a := []) hfits hlen hnot 0 eloui n
    rw [rtwP2pMergeIes, if_pos rfl] at h
    cases (congrArg (Option.map _) hloop).symm.trans h
  obtain ⟨s, hs, hw⟩ := Option.map_eq_some_iff.mp h
  obtain ⟨s', hs', hw'⟩ := Option.map_eq_some_iff.mp (rtwP2pMergeIes_of_allTold hfits hlen hall)
  rw [whileLoop_unique hs hs', hw'] at hw
  obtain ⟨rfl, rfl⟩ := Prod.mk.inj hw
  exact ⟨hall, rfl, rfl⟩

end Merge

/-- What `rtw_p2p_merge_ies` writes is never what it is meant to: two bytes are in front of the OUI
that the length does not count. With them, it is the merged element if and only if the bodies of the
P2P elements have less than 256 bytes together and all elements can be told. -/
theorem rtwP2pMergeIes_merges_iff (es : List Ie) (hfits : ieFormat.Fits es)
    (hlen : (ieFormat.encode es).length < 2 ^ 32) :
    ¬ Merges [] es ∧ (Merges [0xDD, 0x00] es ↔ (bodies es).length < 256 ∧ AllTold 0 es) := by
  refine ⟨?_, ?_, ?_⟩
  · rintro ⟨n, ret, hmerge, -, -⟩
    obtain ⟨-, hw, -⟩ := merged_of_rtwP2pMergeIes hfits hlen hmerge
    have := congrArg List.length hw
    simp only [List.length_append, List.length_cons, List.length_nil] at this
    omega
  · rintro ⟨n, ret, hmerge, hret, -⟩
    obtain ⟨hall, -, hret'⟩ := merged_of_rtwP2pMergeIes hfits hlen hmerge
    rw [hret, List.length_append] at hret'
    change 4 + _ = _ at hret'
    exact ⟨by omega, hall⟩
  · rintro ⟨hsmall, hall⟩
    refine ⟨es.length, _, rtwP2pMergeIes_of_allTold hfits hlen hall, ?_, ?_⟩
    · rw [List.length_append, Nat.mod_eq_of_lt hsmall, Nat.add_comm]
      rfl
    · rw [rtwGetP2pMergedIesLen_of_allTold hfits hlen hall hsmall, List.length_append,
        Nat.mod_eq_of_lt hsmall, Nat.add_comm]
      rfl

/-- One element is merged into itself, but for the two bytes. -/
theorem rtwP2pMergeIes_merges_single :
    ¬ Merges [] [⟨vendorSpecificIe, oui ++ [7]⟩]
      ∧ Merges [0xDD, 0x00] [⟨vendorSpecificIe, oui ++ [7]⟩] := by
  obtain ⟨hnever, hiff⟩ := rtwP2pMergeIes_merges_iff [⟨vendorSpecificIe, oui ++ [7]⟩]
    (by unfold Format.Fits; decide) (by decide)
  exact ⟨hnever, hiff.mpr ⟨by decide, ⟨by decide, fun _ h => absurd h (by decide)⟩, trivial⟩⟩

/-- Two elements with 200 bytes each. -/
def fragments : List Ie :=
  [⟨vendorSpecificIe, oui ++ List.replicate 200 7⟩, ⟨vendorSpecificIe, oui ++ List.replicate 200 7⟩]

/-- The length that is returned for them is 148, and 406 bytes have been written. -/
theorem fragments_not_merged : ¬ Merges [] fragments ∧ ¬ Merges [0xDD, 0x00] fragments := by
  have hfits : ieFormat.Fits fragments := by
    unfold Format.Fits
    decide +kernel
  have hret : ∀ {hd : List Byte}, ¬ Merges hd fragments := by
    rintro hd ⟨n, ret, hmerge, hlen, -⟩
    obtain ⟨-, -, hret⟩ := merged_of_rtwP2pMergeIes hfits (by decide +kernel) hmerge
    have hbodies : (bodies fragments).length = 400 := by decide +kernel
    rw [hret, List.length_append, hbodies] at hlen
    exact absurd hlen (by decide)
  exact ⟨hret, hret⟩

end Rtl88x2cu.Ieee80211.P2pMerge
