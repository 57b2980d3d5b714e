import Rtl88x2cu.Ieee80211.VendorIe

/-!
# When the searches for vendor elements and attributes are safe

For a buffer of any bytes: when do the finders and the searches for an attribute of the element that
they find return, read only inside the lengths that they are given, and return only what lies
inside?

`getVendorIe_iff` answers this for the finders, `rtwGetWpsAttr_iff` and `getWfaAttr_iff` for the
attributes, all by `walk_iff` from what one iteration does. `vendorSearch_iff` puts them together.
-/

namespace Rtl88x2cu.Ieee80211.VendorIe

open Bytes Tlv Walker

/-! ## Reads -/

section Read

variable {mem : List Byte} {p off len : ℕ}

theorem getBe16_eq_some (h : p + 1 < mem.length) : ∃ v, getBe16 mem p = some v ∧ v < 65536 := by
  refine ⟨mem[p].toNat * 256 + mem[p + 1].toNat, ?_, by omega⟩
  rw [getBe16, List.getElem?_eq_getElem (by omega), List.getElem?_eq_getElem h]
  rfl

theorem getLe16_eq_some (h : p + 1 < mem.length) : ∃ v, getLe16 mem p = some v ∧ v < 65536 := by
  refine ⟨mem[p + 1].toNat * 256 + mem[p].toNat, ?_, by omega⟩
  rw [getLe16, List.getElem?_eq_getElem (by omega), List.getElem?_eq_getElem h]
  rfl

theorem Order.get16_eq_some (o : Order) (h : p + 1 < mem.length) :
    ∃ v, o.get16 mem p = some v ∧ v < 65536 := by
  cases o with
  | le => exact getLe16_eq_some h
  | be => exact getBe16_eq_some h

/-- A read of two bytes is inside the buffer. -/
theorem lt_of_getBe16 {v : ℕ} (h : getBe16 mem p = some v) : p + 1 < mem.length := by
  by_contra hge
  have hnone : mem[p + 1]? = none := List.getElem?_eq_none (Nat.not_lt.mp hge)
  rw [getBe16, hnone] at h
  cases h0 : mem[p]? <;> simp [h0] at h

theorem copyOf_of_le (buf : Bool) (h : off + len ≤ mem.length) : ∃ c, copyOf buf mem off len =
    some c := by
  cases buf with
  | false => exact ⟨_, rfl⟩
  | true => exact ⟨_, if_pos h⟩

end Read

/-! ## The finders -/

section Finder

variable (oui bs : List Byte)

/-- The finder stops at `q`. -/
def IsMatch (q : ℕ) : Prop :=
  q + 5 < bs.length ∧ q + 5 < maxIeSz ∧ isVendorIe oui bs q = some true

/-- The length of the element at `q`, with its header. -/
def ieLen (q : ℕ) : ℕ := (bs.getD (q + 1) 0).toNat + 2

/-- The positions that the finder comes to in the buffer. -/
def IeAt (q : ℕ) : Prop := Reaches (ieStep oui bs bs.length false) 0 q

variable {oui bs}

theorem isVendorIe_eq_some {q : ℕ} (houi : oui.length = 4) (h : q + 5 < bs.length) :
    ∃ b, isVendorIe oui bs q = some b := by
  rw [isVendorIe, List.getElem?_eq_getElem (by omega)]
  simp only [Option.bind_eq_bind, Option.bind_some]
  split
  · rw [memcmp_of_le (by omega)]
    exact ⟨_, rfl⟩
  · exact ⟨_, rfl⟩

theorem read_ieLen {q : ℕ} (h : q + 1 < bs.length) :
    ∃ l, bs[q + 1]? = some l ∧ l.toNat + 2 = ieLen bs q := by
  refine ⟨bs[q + 1], List.getElem?_eq_getElem h, ?_⟩
  rw [ieLen, List.getD_eq_getElem?_getD, List.getElem?_eq_getElem h]
  rfl

/-- An iteration at an element that is not searched for. -/
theorem ieStep_of_not_match {q : ℕ} (houi : oui.length = 4) (hin : q + 5 < bs.length)
    (hmax : q + 5 < maxIeSz) (h : isVendorIe oui bs q ≠ some true) (buf : Bool) :
    ieStep oui bs bs.length buf q = some (.goto (q + ieLen bs q)) := by
  obtain ⟨b, hb⟩ := isVendorIe_eq_some houi hin
  have hlt : q + 1 < bs.length := by omega
  obtain ⟨l, hl, hlen⟩ := read_ieLen hlt
  cases b with
  | true => exact absurd hb h
  | false =>
    rw [ieStep, if_pos hin, if_neg (Nat.not_le.mpr hmax)]
    simp only [Option.bind_eq_bind, hb, Option.bind_some, hl, hlen, if_neg Bool.false_ne_true]

/-- An iteration at one that is. -/
theorem ieStep_of_match {q : ℕ} (h : IsMatch oui bs q) (buf : Bool) :
    ieStep oui bs bs.length buf q = (copyOf buf bs q (ieLen bs q)).map fun copy =>
      .done (some ⟨q, ieLen bs q, copy⟩) := by
  obtain ⟨hin, hmax, hb⟩ := h
  have hlt : q + 1 < bs.length := by omega
  obtain ⟨l, hl, hlen⟩ := read_ieLen hlt
  rw [ieStep, if_pos hin, if_neg (Nat.not_le.mpr hmax)]
  simp only [Option.bind_eq_bind, hb, Option.bind_some, hl, hlen, if_true]

theorem ieStep_of_end {q : ℕ} (h : ¬ (q + 5 < bs.length ∧ q + 5 < maxIeSz)) (buf : Bool) :
    ieStep oui bs bs.length buf q = some (.done none) := by
  rw [ieStep]
  by_cases hin : q + 5 < bs.length
  · rw [if_pos hin, if_pos (Nat.not_lt.mp fun hmax => h ⟨hin, hmax⟩)]
  · rw [if_neg hin]

/-- The four kinds of iterations. -/
theorem ieStep_cases (houi : oui.length = 4) (q : ℕ) :
    IsMatch oui bs q
      ∨ (q + 5 < bs.length ∧ ¬ IsMatch oui bs q
        ∧ ∀ buf, ieStep oui bs bs.length buf q = some (.goto (q + ieLen bs q)))
      ∨ (¬ IsMatch oui bs q ∧ ∀ buf, ieStep oui bs bs.length buf q = some (.done none)) := by
  by_cases hend : q + 5 < bs.length ∧ q + 5 < maxIeSz
  · by_cases hb : isVendorIe oui bs q = some true
    · exact .inl ⟨hend.1, hend.2, hb⟩
    · exact .inr (.inl ⟨hend.1, fun h => hb h.2.2, ieStep_of_not_match houi hend.1 hend.2 hb⟩)
  · exact .inr (.inr ⟨fun h => hend ⟨h.1, h.2.1⟩, ieStep_of_end hend⟩)

/-- Where a finder goes on does not depend on the buffer for the copy. -/
theorem ieStep_goto (houi : oui.length = 4) {buf : Bool} (buf' : Bool) {q q' : ℕ}
    (h : ieStep oui bs bs.length buf q = some (.goto q')) :
    ieStep oui bs bs.length buf' q = some (.goto q') ∧ q' = q + ieLen bs q ∧ q + 5 < bs.length := by
  rcases ieStep_cases houi q with hm | ⟨hin, -, hgo⟩ | ⟨-, hend⟩
  · rw [ieStep_of_match hm] at h
    obtain ⟨_, -, hc⟩ := Option.map_eq_some_iff.mp h
    cases hc
  · rw [hgo] at h ⊢
    cases h
    exact ⟨rfl, rfl, hin⟩
  · rw [hend] at h
    cases h

/-- A finder ends well, with an element of which `Q` holds, if and only if the element at which it
stops lies inside the buffer and `Q` holds of it. -/
theorem getVendorIe_iff (houi : oui.length = 4) (Q : List Byte → Prop) (buf : Bool) :
    (∃ n r, getVendorIe oui n (some bs) bs.length buf = some r
      ∧ ∀ f, r = some f → f.ptr + f.len ≤ bs.length ∧ Q (slice bs f.ptr f.len))
    ↔ ∀ q, IeAt oui bs q → IsMatch oui bs q →
      q + ieLen bs q ≤ bs.length ∧ Q (slice bs q (ieLen bs q)) := by
  have hwalk : (∃ n r, getVendorIe oui n (some bs) bs.length buf = some r
        ∧ ∀ f, r = some f → f.ptr + f.len ≤ bs.length ∧ Q (slice bs f.ptr f.len))
      ↔ ∃ n r, walk (ieStep oui bs bs.length buf) n 0 = some r
        ∧ ∀ f, r = some f → f.ptr + f.len ≤ bs.length ∧ Q (slice bs f.ptr f.len) := by
    by_cases hempty : (bs.length : ℤ) ≤ 0
    · -- the loop is not entered, and would return at once
      have hend : ieStep oui bs bs.length buf 0 = some (.done none) := ieStep_of_end (by omega) buf
      have hnone : ∀ f : Found, (none : Option Found) = some f →
          f.ptr + f.len ≤ bs.length ∧ Q (slice bs f.ptr f.len) := fun _ h => by cases h
      exact ⟨fun _ => ⟨1, none, walk_done hend, hnone⟩, fun _ => ⟨0, none, if_pos hempty, hnone⟩⟩
    · simp only [getVendorIe, if_neg hempty, Int.toNat_natCast]
  rw [hwalk, walk_iff bs.length]
  · constructor
    · intro hall q hq hm
      have hs := hall q (hq.mono fun q q' h => (ieStep_goto houi _ h).1)
      rw [ieStep_of_match hm] at hs
      cases hc : copyOf buf bs q (ieLen bs q) with
      | none => rw [hc] at hs; exact hs.elim
      | some c => rw [hc] at hs; exact hs _ rfl
    · intro hall q hq
      rcases ieStep_cases houi q with hm | ⟨-, -, hgo⟩ | ⟨-, hend⟩
      · obtain ⟨hin, hQ⟩ := hall q (hq.mono fun q q' h => (ieStep_goto houi _ h).1) hm
        obtain ⟨c, hc⟩ := copyOf_of_le buf hin
        rw [ieStep_of_match hm, hc]
        rintro f hf
        cases hf
        exact ⟨hin, hQ⟩
      · rw [hgo]
        exact Nat.ne_of_gt (Nat.lt_add_of_pos_right (Nat.succ_pos _))
      · rw [hend]
        rintro f hf
        cases hf
  · intro q q' h
    obtain ⟨-, rfl, hin⟩ := ieStep_goto houi buf h
    exact ⟨Nat.le_add_right _ _, by omega⟩

end Finder

/-! ## Attributes -/

section Attr

/-- The attribute that is returned lies inside the element, and its length is not wrapped. -/
def AttrIn (hdr : ℕ) (lenAt : ℕ → Option ℕ) (ielen : ℕ) (r : Option Found) : Prop :=
  ∀ f, r = some f → ∃ dataLen, lenAt f.ptr = some dataLen ∧ f.len = dataLen + hdr
    ∧ f.ptr + f.len ≤ ielen

variable {ie : List Byte}

/-- The iteration at the target is right if and only if the attribute lies inside the element. -/
theorem sound_found {hdr dataLen q : ℕ} (lenAt : ℕ → Option ℕ) (hdata : lenAt q = some dataLen)
    (hlen : ie.length ≤ 257) (buf : Bool) :
    Sound (AttrIn hdr lenAt ie.length) q ((copyOf buf ie q (attrLen hdr dataLen)).map fun copy =>
        .done (some ⟨q, attrLen hdr dataLen, copy⟩))
      ↔ q + (dataLen + hdr) ≤ ie.length := by
  constructor
  · intro hs
    cases hc : copyOf buf ie q (attrLen hdr dataLen) with
    | none => rw [hc] at hs; exact hs.elim
    | some c =>
      rw [hc] at hs
      obtain ⟨d, hd, hl, hin⟩ := hs _ rfl
      obtain rfl : dataLen = d := Option.some.inj (hdata.symm.trans hd)
      exact hl ▸ hin
  · intro hin
    have hattr : attrLen hdr dataLen = dataLen + hdr := Nat.mod_eq_of_lt (by omega)
    obtain ⟨c, hc⟩ := copyOf_of_le buf hin
    rw [hattr, hc]
    rintro f hf
    cases hf
    exact ⟨dataLen, hdata, rfl, hin⟩

/-! ### WPS -/

/-- At every header that the search for a WPS attribute comes to: the header lies inside the
element; so does the attribute, if it is the target, and else its length does not wrap to zero. -/
def WpsCond (ie : List Byte) (target : BitVec 16) : Prop :=
  ∀ q, Reaches (wpsAttrStep ie ie.length target false) 6 q → q < ie.length →
    ∃ id dataLen, getBe16 ie q = some id ∧ getBe16 ie (q + 2) = some dataLen
      ∧ if id = target.toNat then q + (dataLen + 4) ≤ ie.length else dataLen ≠ 65532

/-- An iteration of the search, at a header that lies inside the element. -/
theorem wpsAttrStep_of_le (target : BitVec 16) {q : ℕ} (h : q + 4 ≤ ie.length) :
    ∃ id dataLen, getBe16 ie q = some id ∧ getBe16 ie (q + 2) = some dataLen ∧ dataLen < 65536
      ∧ ∀ buf, wpsAttrStep ie ie.length target buf q
        = if id = target.toNat then
            (copyOf buf ie q (attrLen 4 dataLen)).map fun copy =>
              .done (some ⟨q, attrLen 4 dataLen, copy⟩)
          else some (.goto (q + attrLen 4 dataLen)) := by
  have hq : q + 1 < ie.length := by omega
  have hq2 : q + 2 + 1 < ie.length := by omega
  obtain ⟨id, hid, -⟩ := getBe16_eq_some hq
  obtain ⟨dataLen, hlen, hlt⟩ := getBe16_eq_some hq2
  refine ⟨id, dataLen, hid, hlen, hlt, fun buf => ?_⟩
  rw [wpsAttrStep, if_pos (by omega)]
  simp only [Option.bind_eq_bind, hid, hlen, Option.bind_some]

/-- Behind the element the search is over; at a header that does not lie inside it, it reads behind
the element. -/
theorem wpsAttrStep_of_lt {target : BitVec 16} {q : ℕ} (h : ie.length < q + 4) (buf : Bool) :
    wpsAttrStep ie ie.length target buf q = if q < ie.length then none else some (.done none) := by
  rw [wpsAttrStep]
  refine if_congr Iff.rfl ?_ rfl
  cases h0 : getBe16 ie q with
  | none => rfl
  | some id =>
    cases h2 : getBe16 ie (q + 2) with
    | none => rfl
    | some dataLen =>
      have := lt_of_getBe16 h2
      omega

theorem wpsAttrStep_goto {target : BitVec 16} {buf : Bool} (buf' : Bool) {q q' : ℕ}
    (h : wpsAttrStep ie ie.length target buf q = some (.goto q')) :
    wpsAttrStep ie ie.length target buf' q = some (.goto q') ∧ q ≤ q' ∧ q < ie.length := by
  by_cases hle : q + 4 ≤ ie.length
  · obtain ⟨id, dataLen, -, -, -, hstep⟩ := wpsAttrStep_of_le target hle
    rw [hstep] at h ⊢
    by_cases hid : id = target.toNat
    · rw [if_pos hid] at h
      obtain ⟨_, -, hc⟩ := Option.map_eq_some_iff.mp h
      cases hc
    · rw [if_neg hid] at h ⊢
      cases h
      exact ⟨rfl, Nat.le_add_right _ _, by omega⟩
  · rw [wpsAttrStep_of_lt (Nat.lt_of_not_le hle)] at h
    split at h <;> cases h

/-- The search for a WPS attribute, in an element that is not longer than the finder returns. -/
theorem wpsAttrWalk_iff {target : BitVec 16} (hlen : ie.length ≤ 257) (buf : Bool) :
    (∃ n r, walk (wpsAttrStep ie ie.length target buf) n 6 = some r
      ∧ AttrIn 4 (fun p => getBe16 ie (p + 2)) ie.length r)
    ↔ WpsCond ie target := by
  rw [walk_iff ie.length fun q q' h => (wpsAttrStep_goto buf h).2]
  have hreach : ∀ q, Reaches (wpsAttrStep ie ie.length target buf) 6 q
      ↔ Reaches (wpsAttrStep ie ie.length target false) 6 q := fun q =>
    ⟨fun hq => hq.mono fun _ _ h => (wpsAttrStep_goto _ h).1,
      fun hq => hq.mono fun _ _ h => (wpsAttrStep_goto _ h).1⟩
  refine forall_congr' fun q => imp_congr (hreach q) ?_
  by_cases hle : q + 4 ≤ ie.length
  · obtain ⟨id, dataLen, hid, hdata, hdlen, hstep⟩ := wpsAttrStep_of_le target hle
    rw [hstep]
    have hlt : q < ie.length := by omega
    simp only [hid, hdata, Option.some.injEq, exists_eq_left', exists_and_left, hlt,
      forall_true_left]
    by_cases heq : id = target.toNat
    · rw [if_pos heq, if_pos heq]
      exact sound_found (fun p => getBe16 ie (p + 2)) hdata hlen buf
    · -- the search stays where it is if the length of the attribute wraps to zero
      rw [if_neg heq, if_neg heq]
      change q + attrLen 4 dataLen ≠ q ↔ _
      rw [attrLen]
      omega
  · rw [wpsAttrStep_of_lt (Nat.lt_of_not_le hle)]
    by_cases hlt : q < ie.length
    · rw [if_pos hlt]
      refine iff_of_false (fun h => h) fun h => ?_
      obtain ⟨_, _, -, h2, -⟩ := h hlt
      have := lt_of_getBe16 h2
      omega
    · rw [if_neg hlt]
      exact iff_of_true (fun f hf => by cases hf) fun h => absurd h hlt

/-! ### P2P and WFD -/

/-- At every header that the search for a P2P or WFD attribute comes to: the length of the attribute
does not wrap, if it is the target, and else it does not wrap to zero. -/
def WfaCond (o : Order) (ie : List Byte) (target : Byte) : Prop :=
  ∀ q, Reaches (wfaAttrStep o ie ie.length target false) 6 q → q + 3 ≤ ie.length →
    ∃ id dataLen, ie[q]? = some id ∧ o.get16 ie (q + 1) = some dataLen
      ∧ if id = target then dataLen < 65533 else dataLen ≠ 65533

variable {o : Order}

/-- An iteration of the search, at a header inside the element. -/
theorem wfaAttrStep_of_le (o : Order) (target : Byte) {q : ℕ} (h : q + 3 ≤ ie.length) :
    ∃ id dataLen, ie[q]? = some id ∧ o.get16 ie (q + 1) = some dataLen ∧ dataLen < 65536
      ∧ ∀ buf, wfaAttrStep o ie ie.length target buf q
        = if q + attrLen 3 dataLen > ie.length then some (.done none)
          else if id = target then
            (copyOf buf ie q (attrLen 3 dataLen)).map fun copy =>
              .done (some ⟨q, attrLen 3 dataLen, copy⟩)
          else some (.goto (q + attrLen 3 dataLen)) := by
  have hq : q < ie.length := by omega
  have hq1 : q + 1 + 1 < ie.length := by omega
  obtain ⟨dataLen, hlen, hlt⟩ := o.get16_eq_some hq1
  refine ⟨ie[q], dataLen, List.getElem?_eq_getElem hq, hlen, hlt, fun buf => ?_⟩
  rw [wfaAttrStep, if_pos h]
  simp only [Option.bind_eq_bind, List.getElem?_eq_getElem hq, hlen, Option.bind_some]

theorem wfaAttrStep_goto {target : Byte} {buf : Bool} (buf' : Bool) {q q' : ℕ}
    (h : wfaAttrStep o ie ie.length target buf q = some (.goto q')) :
    wfaAttrStep o ie ie.length target buf' q = some (.goto q') ∧ q ≤ q' ∧ q < ie.length := by
  by_cases hle : q + 3 ≤ ie.length
  · obtain ⟨id, dataLen, -, -, -, hstep⟩ := wfaAttrStep_of_le o target hle
    rw [hstep] at h ⊢
    by_cases hout : q + attrLen 3 dataLen > ie.length
    · rw [if_pos hout] at h
      cases h
    · by_cases hid : id = target
      · rw [if_neg hout, if_pos hid] at h
        obtain ⟨_, -, hc⟩ := Option.map_eq_some_iff.mp h
        cases hc
      · rw [if_neg hout, if_neg hid] at h ⊢
        cases h
        exact ⟨rfl, Nat.le_add_right _ _, by omega⟩
  · rw [wfaAttrStep, if_neg hle] at h
    cases h

/-- The search for a P2P or WFD attribute, in an element that is not longer than the finder
returns. -/
theorem wfaAttrWalk_iff {target : Byte} (hlen : ie.length ≤ 257) (buf : Bool) :
    (∃ n r, walk (wfaAttrStep o ie ie.length target buf) n 6 = some r
      ∧ AttrIn 3 (fun p => o.get16 ie (p + 1)) ie.length r)
    ↔ WfaCond o ie target := by
  rw [walk_iff ie.length fun q q' h => (wfaAttrStep_goto buf h).2]
  have hreach : ∀ q, Reaches (wfaAttrStep o ie ie.length target buf) 6 q
      ↔ Reaches (wfaAttrStep o ie ie.length target false) 6 q := fun q =>
    ⟨fun hq => hq.mono fun _ _ h => (wfaAttrStep_goto _ h).1,
      fun hq => hq.mono fun _ _ h => (wfaAttrStep_goto _ h).1⟩
  refine forall_congr' fun q => imp_congr (hreach q) ?_
  by_cases hle : q + 3 ≤ ie.length
  · obtain ⟨id, dataLen, hid, hdata, hdlen, hstep⟩ := wfaAttrStep_of_le o target hle
    rw [hstep]
    simp only [hid, hdata, Option.some.injEq, exists_eq_left', exists_and_left, hle,
      forall_true_left]
    by_cases hout : q + attrLen 3 dataLen > ie.length
    · -- a length that wraps is small, so that the check does not stop the search
      rw [if_pos hout]
      refine iff_of_true (fun f hf => by cases hf) ?_
      rw [attrLen] at hout
      split <;> omega
    · rw [if_neg hout]
      by_cases heq : id = target
      · rw [if_pos heq, if_pos heq, sound_found (fun p => o.get16 ie (p + 1)) hdata hlen buf]
        rw [attrLen] at hout
        omega
      · rw [if_neg heq, if_neg heq]
        change q + attrLen 3 dataLen ≠ q ↔ _
        rw [attrLen]
        omega
  · have hend : wfaAttrStep o ie ie.length target buf q = some (.done none) := if_neg hle
    rw [hend]
    exact iff_of_true (fun f hf => by cases hf) fun h => absurd h hle

end Attr

/-! ## Well-formed attribute lists -/

/-- The attributes of a WPS element. -/
def wpsFormat : Format (BitVec 16) where
  hdr id n := [BitVec.ofNat 8 (id.toNat / 256), BitVec.ofNat 8 id.toNat,
    BitVec.ofNat 8 (n / 256), BitVec.ofNat 8 n]
  hlen := 4
  length_hdr _ _ := rfl
  maxBody := 65535

/-- The bytes of a length, in the order in which they are read. -/
def Order.put16 (o : Order) (n : ℕ) : List Byte :=
  match o with
  | .le => [BitVec.ofNat 8 n, BitVec.ofNat 8 (n / 256)]
  | .be => [BitVec.ofNat 8 (n / 256), BitVec.ofNat 8 n]

/-- The attributes of a P2P or WFD element. -/
def wfaFormat (o : Order) : Format Byte where
  hdr id n := id :: o.put16 n
  hlen := 3
  length_hdr _ _ := by cases o <;> rfl
  maxBody := 65535

/-- What a search in the list `as` that starts at `off` should return: the first attribute with the
identifier, without its first `skip` bytes, and `NULL` if and only if there is none. -/
structure FirstAttr {ι : Type*} (fmt : Format ι) (target : ι) (as : List (Elem ι)) (off skip : ℕ)
    (r : Option Found) : Prop where
  none_iff : r = none ↔ ∀ x ∈ as, x.id ≠ target
  first : ∀ pre x post, as = pre ++ x :: post → x.id = target → (∀ y ∈ pre, y.id ≠ target) →
    ∃ copy, r = some ⟨off + (fmt.encode pre).length + skip, fmt.hlen + x.body.length - skip, copy⟩

section First

variable {ι : Type*} {fmt : Format ι} {target : ι} {as : List (Elem ι)} {off : ℕ} {r : Option Found}

theorem FirstAttr.nil : FirstAttr fmt target [] off 0 none where
  none_iff := by simp
  first pre x post h := by cases pre <;> cases h

/-- The first attribute of the list is the target. -/
theorem FirstAttr.head {x : Elem ι} (hx : x.id = target) (copy : List Byte) :
    FirstAttr fmt target (x :: as) off 0 (some ⟨off, fmt.hlen + x.body.length, copy⟩) where
  none_iff := iff_of_false (fun h => by cases h) fun h => h x List.mem_cons_self hx
  first pre y post h hy hpre := by
    cases pre with
    | nil =>
      obtain ⟨rfl, -⟩ := List.cons.inj h
      exact ⟨copy, rfl⟩
    | cons z pre =>
      obtain ⟨rfl, -⟩ := List.cons.inj h
      exact absurd hx (hpre _ List.mem_cons_self)

/-- It is not. -/
theorem FirstAttr.tail {x : Elem ι} (hx : x.id ≠ target)
    (h : FirstAttr fmt target as (off + (fmt.hlen + x.body.length)) 0 r) :
    FirstAttr fmt target (x :: as) off 0 r where
  none_iff := by rw [h.none_iff, List.forall_mem_cons, and_iff_right hx]
  first pre y post hsplit hy hpre := by
    cases pre with
    | nil =>
      obtain ⟨rfl, -⟩ := List.cons.inj hsplit
      exact absurd hy hx
    | cons z pre =>
      obtain ⟨rfl, has⟩ := List.cons.inj hsplit
      obtain ⟨copy, hr⟩ := h.first pre y post has hy fun w hw => hpre w (List.mem_cons_of_mem _ hw)
      exact ⟨copy, by rw [hr, Format.encode_cons, List.length_append,
        Format.length_enc]; congr 2; omega⟩

/-- A walk whose iterations read the headers of a list finds the first target in it. -/
theorem walk_first [DecidableEq ι] {step : ℕ → Option (Next (Option Found))} {ie : List Byte}
    (hstep : ∀ a x rest, ie = a ++ fmt.encode (x :: rest) →
      if x.id = target then
        ∃ copy, step a.length = some (.done (some ⟨a.length, fmt.hlen + x.body.length, copy⟩))
      else step a.length = some (.goto (a.length + (fmt.hlen + x.body.length))))
    (hend : step ie.length = some (.done none)) (a : List Byte) (h : ie = a ++ fmt.encode as) :
    ∃ r, walk step (as.length + 1) a.length = some r ∧ FirstAttr fmt target as a.length 0 r := by
  induction as generalizing a with
  | nil =>
    rw [Format.encode_nil, List.append_nil] at h
    exact ⟨none, walk_done (h ▸ hend), .nil⟩
  | cons x as ih =>
    have hx := hstep a x as h
    by_cases heq : x.id = target
    · rw [if_pos heq] at hx
      obtain ⟨copy, hx⟩ := hx
      exact ⟨_, walk_done hx, .head heq copy⟩
    · rw [if_neg heq] at hx
      have hnext : (a ++ fmt.enc x).length = a.length + (fmt.hlen + x.body.length) := by
        rw [List.length_append, Format.length_enc]
      obtain ⟨r, hwalk, hfirst⟩ := ih (a ++ fmt.enc x) (by rw [h, List.append_assoc]; rfl)
      rw [hnext] at hwalk hfirst
      exact ⟨r, by rwa [List.length_cons, walk_goto hx], hfirst.tail heq⟩

theorem getBe16_append (a : List Byte) (b0 b1 : Byte) (r : List Byte) :
    getBe16 (a ++ b0 :: b1 :: r) a.length = some (b0.toNat * 256 + b1.toNat) := by
  rw [getBe16, read_append_zero, read_append]
  rfl

theorem getLe16_append (a : List Byte) (b0 b1 : Byte) (r : List Byte) :
    getLe16 (a ++ b0 :: b1 :: r) a.length = some (b1.toNat * 256 + b0.toNat) := by
  rw [getLe16, read_append_zero, read_append]
  rfl

theorem toNat_be16 {n : ℕ} (h : n < 65536) :
    (BitVec.ofNat 8 (n / 256)).toNat * 256 + (BitVec.ofNat 8 n).toNat = n := by
  simp only [BitVec.toNat_ofNat]
  omega

theorem Order.get16_append (o : Order) (a r : List Byte) {n : ℕ} (h : n < 65536) :
    o.get16 (a ++ (o.put16 n ++ r)) a.length = some n := by
  cases o with
  | le =>
    rw [Order.get16, Order.put16]
    exact (getLe16_append _ _ _ _).trans (congrArg some (toNat_be16 h))
  | be =>
    rw [Order.get16, Order.put16]
    exact (getBe16_append _ _ _ _).trans (congrArg some (toNat_be16 h))

variable {ie : List Byte}

/-- The search for a WPS attribute reads the headers of a list. -/
theorem wpsAttrStep_append {target : BitVec 16} (hlen : ie.length ≤ 257) (buf : Bool)
    (a : List Byte)
    (x : Elem (BitVec 16)) (rest : List (Elem (BitVec 16)))
    (h : ie = a ++ wpsFormat.encode (x :: rest)) :
    if x.id = target then
      ∃ copy, wpsAttrStep ie ie.length target buf a.length
        = some (.done (some ⟨a.length, 4 + x.body.length, copy⟩))
    else wpsAttrStep ie ie.length target buf a.length
        = some (.goto (a.length + (4 + x.body.length))) := by
  have hin : a.length + (4 + x.body.length) ≤ ie.length := by
    rw [h, List.length_append, Format.encode_cons, List.length_append, Format.length_enc]
    exact Nat.add_le_add_left (Nat.le_add_right _ _) _
  have hid : getBe16 ie a.length = some x.id.toNat := by
    rw [h, Format.encode_cons, Format.enc, List.append_assoc]
    exact (getBe16_append _ _ _ _).trans (congrArg some (toNat_be16 x.id.isLt))
  have hdata : getBe16 ie (a.length + 2) = some x.body.length := by
    have hsplit : ie = (a ++ [BitVec.ofNat 8 (x.id.toNat / 256), BitVec.ofNat 8 x.id.toNat])
        ++ BitVec.ofNat 8 (x.body.length / 256) :: BitVec.ofNat 8 x.body.length
          :: (x.body ++ wpsFormat.encode rest) := by
      rw [h, Format.encode_cons, Format.enc, List.append_assoc, List.append_assoc]
      rfl
    have hread := getBe16_append
      (a ++ [BitVec.ofNat 8 (x.id.toNat / 256), BitVec.ofNat 8 x.id.toNat])
      (BitVec.ofNat 8 (x.body.length / 256)) (BitVec.ofNat 8 x.body.length)
      (x.body ++ wpsFormat.encode rest)
    rw [← hsplit, List.length_append, toNat_be16 (by omega)] at hread
    exact hread
  have hattr : attrLen 4 x.body.length = 4 + x.body.length := by
    rw [attrLen, Nat.mod_eq_of_lt (by omega), Nat.add_comm]
  obtain ⟨copy, hcopy⟩ := copyOf_of_le buf hin
  have hq : a.length < ie.length := by omega
  simp only [wpsAttrStep, if_pos hq, Option.bind_eq_bind, hid, hdata, Option.bind_some, hattr,
    hcopy,
    Option.map_some, BitVec.toNat_inj]
  by_cases heq : x.id = target
  · rw [if_pos heq]
    exact ⟨copy, if_pos heq⟩
  · rw [if_neg heq, if_neg heq]

/-- So does the search for a P2P or WFD attribute. -/
theorem wfaAttrStep_append {o : Order} {target : Byte} (hlen : ie.length ≤ 257) (buf : Bool)
    (a : List Byte) (x : Elem Byte) (rest : List (Elem Byte))
    (h : ie = a ++ (wfaFormat o).encode (x :: rest)) :
    if x.id = target then
      ∃ copy, wfaAttrStep o ie ie.length target buf a.length
        = some (.done (some ⟨a.length, 3 + x.body.length, copy⟩))
    else wfaAttrStep o ie ie.length target buf a.length
        = some (.goto (a.length + (3 + x.body.length))) := by
  have hin : a.length + (3 + x.body.length) ≤ ie.length := by
    rw [h, List.length_append, Format.encode_cons, List.length_append, Format.length_enc]
    exact Nat.add_le_add_left (Nat.le_add_right _ _) _
  have hid : ie[a.length]? = some x.id := by
    rw [h, read_append_zero]
    rfl
  have hdata : o.get16 ie (a.length + 1) = some x.body.length := by
    have hsplit : ie = (a ++ [x.id]) ++ (o.put16 x.body.length
        ++ (x.body ++ (wfaFormat o).encode rest)) := by
      rw [h, Format.encode_cons, Format.enc, List.append_assoc, List.append_assoc]
      rfl
    have hread := o.get16_append (a ++ [x.id]) (x.body ++ (wfaFormat o).encode rest)
      (show x.body.length < 65536 by omega)
    rw [← hsplit, List.length_append] at hread
    exact hread
  have hattr : attrLen 3 x.body.length = 3 + x.body.length := by
    rw [attrLen, Nat.mod_eq_of_lt (by omega), Nat.add_comm]
  obtain ⟨copy, hcopy⟩ := copyOf_of_le buf hin
  have hq : a.length + 3 ≤ ie.length := by omega
  simp only [wfaAttrStep, if_pos hq, Option.bind_eq_bind, hid, hdata, Option.bind_some, hattr,
    hcopy,
    Option.map_some, if_neg (Nat.not_lt.mpr hin)]
  by_cases heq : x.id = target
  · rw [if_pos heq]
    exact ⟨copy, if_pos heq⟩
  · rw [if_neg heq, if_neg heq]

end First

/-! ## The searches for attributes -/

/-- A search for an attribute of the element `ie` and its `_content` form return, read only inside
the element, return only what lies inside it, and in a well-formed list they find the first
attribute. -/
structure SearchOk {ι : Type*} (fmt : Format ι) (lenAt : ℕ → Option ℕ)
    (search content : ℕ → Bool → Option (Option Found)) (ie : List Byte) (target : ι) : Prop where
  attr : ∀ buf, ∃ n r, search n buf = some r ∧ AttrIn fmt.hlen lenAt ie.length r
    ∧ ∀ as, ie.drop 6 = fmt.encode as → FirstAttr fmt target as 6 0 r
  content : ∀ buf, ∃ n r, content n buf = some r
    ∧ (∀ f, r = some f → f.ptr + f.len ≤ ie.length)
    ∧ ∀ as, ie.drop 6 = fmt.encode as → FirstAttr fmt target as 6 fmt.hlen r

section Search

variable {ι : Type*} {fmt : Format ι} {lenAt : ℕ → Option ℕ} {ie : List Byte} {target : ι}

/-- The content of an attribute that lies inside the element. -/
theorem attrContent_of_in (target : ι) (hpos : 0 < fmt.hlen) (hlen : ie.length ≤ 257)
    {r : Option Found}
    (hin : AttrIn fmt.hlen lenAt ie.length r) (buf : Bool) :
    ∃ r', attrContent fmt.hlen ie buf r = some r' ∧ (∀ f, r' = some f → f.ptr + f.len ≤ ie.length)
      ∧ ∀ as, FirstAttr fmt target as 6 0 r → FirstAttr fmt target as 6 fmt.hlen r' := by
  cases r with
  | none =>
    refine ⟨none, rfl, fun f hf => (by cases hf), fun as h => ⟨h.none_iff, ?_⟩⟩
    intro pre x post hsplit hx hpre
    obtain ⟨_, hr⟩ := h.first pre x post hsplit hx hpre
    cases hr
  | some f =>
    obtain ⟨dataLen, -, hl, hle⟩ := hin f rfl
    have hne : ¬ f.len = 0 := by omega
    have hsub : (f.len + 2 ^ 32 - fmt.hlen) % 2 ^ 32 = f.len - fmt.hlen := by omega
    have hin' : f.ptr + fmt.hlen + (f.len - fmt.hlen) ≤ ie.length := by omega
    obtain ⟨copy, hcopy⟩ := copyOf_of_le buf hin'
    refine ⟨some ⟨f.ptr + fmt.hlen, f.len - fmt.hlen, copy⟩, ?_, ?_, ?_⟩
    · rw [attrContent, if_neg hne, hsub, hcopy]
      rfl
    · rintro g hg
      cases hg
      exact hin'
    · refine fun as h => ⟨iff_of_false (fun h => by cases h) fun hall => ?_, ?_⟩
      · cases h.none_iff.mpr hall
      · intro pre x post hsplit hx hpre
        obtain ⟨_, hr⟩ := h.first pre x post hsplit hx hpre
        cases hr
        exact ⟨copy, rfl⟩

/-- What has to be shown of a search: that it is safe exactly under a condition, and what it finds
in a list under this condition. -/
theorem searchOk_iff {search content : ℕ → Bool → Option (Option Found)} {C : Prop}
    (hpos : 0 < fmt.hlen) (hlen : ie.length ≤ 257)
    (hdet : ∀ {n m buf r r'}, search n buf = some r → search m buf = some r' → r = r')
    (hcontent : ∀ n buf, content n buf = (search n false).bind (attrContent fmt.hlen ie buf))
    (hattr : ∀ buf, (∃ n r, search n buf = some r ∧ AttrIn fmt.hlen lenAt ie.length r) ↔ C)
    (hfirst : C → ∀ buf as, ie.drop 6 = fmt.encode as →
      ∃ n r, search n buf = some r ∧ FirstAttr fmt target as 6 0 r) :
    SearchOk fmt lenAt search content ie target ↔ C := by
  constructor
  · intro h
    obtain ⟨n, r, hs, hin, -⟩ := h.attr false
    exact (hattr false).mp ⟨n, r, hs, hin⟩
  · intro hC
    have hall : ∀ buf, ∃ n r, search n buf = some r ∧ AttrIn fmt.hlen lenAt ie.length r
        ∧ ∀ as, ie.drop 6 = fmt.encode as → FirstAttr fmt target as 6 0 r := by
      intro buf
      obtain ⟨n, r, hs, hin⟩ := (hattr buf).mpr hC
      refine ⟨n, r, hs, hin, fun as has => ?_⟩
      obtain ⟨m, r', hs', hf⟩ := hfirst hC buf as has
      exact hdet hs hs' ▸ hf
    refine ⟨hall, fun buf => ?_⟩
    obtain ⟨n, r, hs, hin, hf⟩ := hall false
    obtain ⟨r', hc, hin', hf'⟩ := attrContent_of_in target hpos hlen hin buf
    exact ⟨n, r', by rw [hcontent, hs]; exact hc, hin', fun as has => hf' as (hf as has)⟩

/-- The bytes in front of the attributes. -/
theorem append_drop_six (h : 6 ≤ ie.length) {as : List (Elem ι)} (has : ie.drop 6 = fmt.encode as) :
    ie = ie.take 6 ++ fmt.encode as ∧ (ie.take 6).length = 6 := by
  rw [← has, List.take_append_drop]
  exact ⟨rfl, List.length_take_of_le h⟩

/-- The WPS searches, in an element that the finder found. -/
theorem rtwGetWpsAttr_iff {target : BitVec 16} (hlen : ie.length ≤ 257)
    (hv : isVendorIe wpsOui ie 0 = if 6 ≤ ie.length then some true else none) :
    SearchOk wpsFormat (fun p => getBe16 ie (p + 2))
        (fun n buf => rtwGetWpsAttr n ie ie.length target buf)
        (fun n buf => rtwGetWpsAttrContent n ie ie.length target buf) ie target
      ↔ 6 ≤ ie.length ∧ WpsCond ie target := by
  by_cases h6 : 6 ≤ ie.length
  · rw [if_pos h6] at hv
    have hwalk : ∀ n buf, rtwGetWpsAttr n ie ie.length target buf
        = walk (wpsAttrStep ie ie.length target buf) n 6 := by
      intro n buf
      rw [rtwGetWpsAttr, hv]
      rfl
    rw [and_iff_right h6]
    refine searchOk_iff (Nat.succ_pos 3) hlen ?_ (fun _ _ => rfl) ?_ ?_
    · intro n m buf r r' h h'
      simp only [hwalk] at h h'
      exact walk_unique h h'
    · intro buf
      simp only [hwalk]
      exact wpsAttrWalk_iff hlen buf
    · intro _ buf as has
      obtain ⟨hsplit, hsix⟩ := append_drop_six h6 has
      have hend : wpsAttrStep ie ie.length target buf ie.length = some (.done none) :=
        if_neg (Nat.lt_irrefl _)
      have hfound := walk_first (wpsAttrStep_append hlen buf) hend (ie.take 6) hsplit
      rw [hsix, ← hwalk] at hfound
      exact ⟨_, hfound⟩
  · -- the test of the OUI reads behind the element
    rw [if_neg h6] at hv
    refine iff_of_false (fun h => ?_) fun h => h6 h.1
    obtain ⟨n, r, hs, -⟩ := h.attr false
    rw [rtwGetWpsAttr, hv] at hs
    cases hs

/-- The P2P and WFD searches. -/
theorem getWfaAttr_iff {oui : List Byte} {o : Order} {target : Byte} (hlen : ie.length ≤ 257)
    (hv : isVendorIe oui ie 0 = if 6 ≤ ie.length then some true else none) :
    SearchOk (wfaFormat o) (fun p => o.get16 ie (p + 1))
        (fun n buf => getWfaAttr oui o n (some ie) ie.length target buf)
        (fun n buf => (getWfaAttr oui o n (some ie) ie.length target false).bind
          (attrContent 3 ie buf)) ie target
      ↔ WfaCond o ie target := by
  have hsearch : ∀ n buf, getWfaAttr oui o n (some ie) ie.length target buf
      = if ie.length ≤ 6 then some none
        else walk (wfaAttrStep o ie ie.length target buf) n 6 := by
    intro n buf
    rw [getWfaAttr]
    refine if_ctx_congr Iff.rfl (fun _ => rfl) fun h6 => ?_
    rw [hv, if_pos (by omega)]
    rfl
  by_cases h6 : ie.length ≤ 6
  · -- there is no header, and the search returns at once
    simp only [if_pos h6] at hsearch
    refine searchOk_iff (Nat.succ_pos 2) hlen ?_ (fun _ _ => rfl) ?_ ?_
    · intro n m buf r r' h h'
      simp only [hsearch] at h h'
      cases h
      cases h'
      rfl
    · intro buf
      refine iff_of_true ⟨0, none, hsearch _ _, fun f hf => by cases hf⟩ fun q hq hle => ?_
      have hmono : ∀ q, Reaches (wfaAttrStep o ie ie.length target false) 6 q → 6 ≤ q := by
        intro q hq
        induction hq with
        | refl => exact Nat.le_refl _
        | tail _ hgo ih => exact Nat.le_trans ih (wfaAttrStep_goto false hgo).2.1
      have := hmono q hq
      omega
    · intro _ buf as has
      have hnil : as = [] := by
        rw [List.drop_eq_nil_of_le h6] at has
        cases as with
        | nil => rfl
        | cons x as =>
          have := congrArg List.length has
          rw [Format.encode_cons, List.length_append, Format.length_enc] at this
          simp only [wfaFormat, List.length_nil] at this
          omega
      exact ⟨0, none, hsearch _ _, hnil ▸ .nil⟩
  · simp only [if_neg h6] at hsearch
    refine searchOk_iff (Nat.succ_pos 2) hlen ?_ (fun _ _ => rfl) ?_ ?_
    · intro n m buf r r' h h'
      simp only [hsearch] at h h'
      exact walk_unique h h'
    · intro buf
      simp only [hsearch]
      exact wfaAttrWalk_iff hlen buf
    · intro _ buf as has
      obtain ⟨hsplit, hsix⟩ := append_drop_six (by omega) has
      have hend : wfaAttrStep o ie ie.length target buf ie.length = some (.done none) :=
        if_neg (by omega)
      have hfound := walk_first (wfaAttrStep_append hlen buf) hend (ie.take 6) hsplit
      rw [hsix, ← hsearch] at hfound
      exact ⟨_, hfound⟩

end Search

/-! ## Finders and searches together -/

section Vendor

variable {oui bs : List Byte}

/-- A slice of a slice. -/
theorem slice_slice {q len i k : ℕ} (h : i + k ≤ len) :
    slice (slice bs q len) i k = slice bs (q + i) k := by
  rw [slice, slice, slice, List.drop_take, List.drop_drop, List.take_take,
    Nat.min_eq_left (by omega)]

theorem read_slice {q len i : ℕ} (h : i < len) : (slice bs q len)[i]? = bs[q + i]? := by
  rw [slice, List.getElem?_take_of_lt h, List.getElem?_drop]

/-- The test of the OUI, made again in the element that was found. -/
theorem isVendorIe_slice {q : ℕ} (houi : oui.length = 4) (hm : IsMatch oui bs q)
    (hin : q + ieLen bs q ≤ bs.length) :
    isVendorIe oui (slice bs q (ieLen bs q)) 0
      = if 6 ≤ (slice bs q (ieLen bs q)).length then some true else none := by
  obtain ⟨hlt, -, hv⟩ := hm
  have htwo : 2 ≤ ieLen bs q := Nat.le_add_left 2 _
  rw [isVendorIe] at hv ⊢
  rw [read_slice (by omega), Nat.add_zero, length_slice hin]
  rw [List.getElem?_eq_getElem (show q < bs.length by omega)] at hv ⊢
  simp only [Option.bind_eq_bind, Option.bind_some] at hv ⊢
  by_cases heid : bs[q] = vendorSpecificIe
  · rw [if_pos heid] at hv ⊢
    by_cases h6 : 6 ≤ ieLen bs q
    · rw [memcmp_of_le (by omega)] at hv
      rw [if_pos h6, memcmp_of_le (by rw [length_slice hin]; omega), houi, slice_slice h6, ← houi,
        hv]
    · rw [if_neg h6, memcmp_of_lt (by rw [length_slice hin]; omega)]
  · rw [if_neg heid] at hv
    cases hv

theorem ieLen_le (q : ℕ) : ieLen bs q ≤ 257 := by
  rw [ieLen]
  omega

/-- The WPS searches in the buffer `bs` are safe and right. -/
def WpsOk (bs : List Byte) (target : BitVec 16) : Prop :=
  ∀ buf, ∃ n r, rtwGetWpsIe n (some bs) bs.length buf = some r
    ∧ ∀ f, r = some f → f.ptr + f.len ≤ bs.length
      ∧ SearchOk wpsFormat (fun p => getBe16 (slice bs f.ptr f.len) (p + 2))
        (fun n buf => rtwGetWpsAttr n (slice bs f.ptr f.len)
          (slice bs f.ptr f.len).length target buf)
        (fun n buf =>
          rtwGetWpsAttrContent n (slice bs f.ptr f.len) (slice bs f.ptr f.len).length target buf)
        (slice bs f.ptr f.len) target

/-- So are the P2P searches. -/
def P2pOk (bs : List Byte) (target : Byte) : Prop :=
  ∀ buf, ∃ n r, rtwGetP2pIe n (some bs) bs.length buf = some r
    ∧ ∀ f, r = some f → f.ptr + f.len ≤ bs.length
      ∧ SearchOk (wfaFormat .le) (fun p => getLe16 (slice bs f.ptr f.len) (p + 1))
        (fun n buf =>
          rtwGetP2pAttr n (some (slice bs f.ptr f.len)) (slice bs f.ptr f.len).length target buf)
        (fun n buf =>
          rtwGetP2pAttrContent n (slice bs f.ptr f.len) (slice bs f.ptr f.len).length target buf)
        (slice bs f.ptr f.len) target

/-- So are the WFD searches. -/
def WfdOk (bs : List Byte) (target : Byte) : Prop :=
  ∀ buf, ∃ n r, rtwGetWfdIe n (some bs) bs.length buf = some r
    ∧ ∀ f, r = some f → f.ptr + f.len ≤ bs.length
      ∧ SearchOk (wfaFormat .be) (fun p => getBe16 (slice bs f.ptr f.len) (p + 1))
        (fun n buf =>
          rtwGetWfdAttr n (some (slice bs f.ptr f.len)) (slice bs f.ptr f.len).length target buf)
        (fun n buf =>
          rtwGetWfdAttrContent n (slice bs f.ptr f.len) (slice bs f.ptr f.len).length target buf)
        (slice bs f.ptr f.len) target

/-- The element at which a finder stops lies inside the buffer, and `C` holds of it. -/
def FirstIe (oui bs : List Byte) (C : List Byte → Prop) : Prop :=
  ∀ q, IeAt oui bs q → IsMatch oui bs q →
    q + ieLen bs q ≤ bs.length ∧ C (slice bs q (ieLen bs q))

/-- From the element that is found to the searches in it. -/
theorem getVendorIe_search_iff (houi : oui.length = 4) {Q C : List Byte → Prop}
    (hQ : ∀ ie : List Byte, ie.length ≤ 257 →
      isVendorIe oui ie 0 = (if 6 ≤ ie.length then some true else none) → (Q ie ↔ C ie)) :
    (∀ buf, ∃ n r, getVendorIe oui n (some bs) bs.length buf = some r
      ∧ ∀ f, r = some f → f.ptr + f.len ≤ bs.length ∧ Q (slice bs f.ptr f.len))
    ↔ FirstIe oui bs C := by
  simp only [getVendorIe_iff houi Q, forall_const]
  refine forall₃_congr fun q _ hm => and_congr_right fun hin => hQ _ ?_ ?_
  · rw [length_slice hin]
    exact ieLen_le q
  · exact isVendorIe_slice houi hm hin

theorem wpsOk_iff (bs : List Byte) (target : BitVec 16) :
    WpsOk bs target ↔ FirstIe wpsOui bs fun ie => 6 ≤ ie.length ∧ WpsCond ie target :=
  getVendorIe_search_iff rfl fun _ hlen hv => rtwGetWpsAttr_iff hlen hv

theorem p2pOk_iff (bs : List Byte) (target : Byte) :
    P2pOk bs target ↔ FirstIe p2pOui bs fun ie => WfaCond .le ie target :=
  getVendorIe_search_iff rfl fun _ hlen hv => getWfaAttr_iff hlen hv

theorem wfdOk_iff (bs : List Byte) (target : Byte) :
    WfdOk bs target ↔ FirstIe wfdOui bs fun ie => WfaCond .be ie target :=
  getVendorIe_search_iff rfl fun _ hlen hv => getWfaAttr_iff hlen hv

/-- The searches for vendor elements and their attributes are safe and right if and only if the
element that is found lies inside the buffer, and in it every header that the search for an
attribute comes to lies inside the element (for WPS), the length of the target does not reach behind
the element or wrap, and no other length wraps to zero. -/
theorem vendorSearch_iff (bs : List Byte) :
    (∀ target, WpsOk bs target
      ↔ FirstIe wpsOui bs fun ie => 6 ≤ ie.length ∧ WpsCond ie target)
    ∧ (∀ target, P2pOk bs target ↔ FirstIe p2pOui bs fun ie => WfaCond .le ie target)
    ∧ ∀ target, WfdOk bs target ↔ FirstIe wfdOui bs fun ie => WfaCond .be ie target :=
  ⟨wpsOk_iff bs, p2pOk_iff bs, wfdOk_iff bs⟩

/-- A P2P element with an attribute whose length is 65533. -/
def endlessIe : List Byte := [0xDD, 7, 0x50, 0x6F, 0x9A, 0x09, 2, 0xFD, 0xFF]

/-- The search for another attribute never gets past it; and the last element of a buffer is found
also when it is cut off. -/
theorem endlessIe_not_ok : ¬ P2pOk endlessIe 7 ∧ ¬ P2pOk (endlessIe.take 8) 7 := by
  have hmatch : IsMatch p2pOui endlessIe 0 := ⟨by decide, by decide, by decide⟩
  have hmatch' : IsMatch p2pOui (endlessIe.take 8) 0 := ⟨by decide, by decide, by decide⟩
  constructor
  · rw [p2pOk_iff]
    intro h
    obtain ⟨_, dataLen, hid, hdata, hcond⟩ := (h 0 .refl hmatch).2 6 .refl (by decide)
    cases hid
    cases hdata
    exact absurd hcond (by decide)
  · rw [p2pOk_iff]
    intro h
    exact absurd (h 0 .refl hmatch').1 (by decide)

end Vendor

end Rtl88x2cu.Ieee80211.VendorIe
