import Rtl88x2cu.Ieee80211.VendorSearch

/-!
# Deleting P2P and WFD elements and attributes

`rtw_bss_ex_del_p2p_ie` and `rtw_bss_ex_del_wfd_ie` cut the P2P (WFD) elements out of the elements
of a BSS description, `rtw_bss_ex_del_p2p_attr` and `rtw_bss_ex_del_wfd_attr` cut the attributes
with an identifier out of them (`core/rtw_ieee80211.c`). All of them search again after each
deletion.

The finder compares the OUI also where an element is too short for one, with the bytes behind it.
`bssExDel_iff` says when that spoils the deletion of elements, and that it never spoils the deletion
of attributes.
-/

namespace Rtl88x2cu.Ieee80211.DelIe

open Bytes Tlv Walker VendorIe

/-! ## Model -/

/-- `a - b` in an `uint`. -/
def usub (a b : ℕ) : ℕ := (a + 2 ^ 32 - b) % 2 ^ 32

section Model

variable (oui : List Byte) (o : Order) (m : ℕ)

/-- The loop of `rtw_del_p2p_ie` and `rtw_del_wfd_ie`; `ies` is the memory from the pointer on. Each
search is given `m` iterations. -/
def delIeLoop : ℕ → List Byte → ℕ → Option (List Byte × ℕ)
  | 0, _, _ => none
  | n + 1, ies, ies_len => do
    match ← getVendorIe oui m (some ies) ies_len false with
    | none => some (ies, ies_len)
    | some f =>
      if f.len = 0 then some (ies, ies_len)
      else
        let remain_len := usub ies_len (f.ptr + f.len)
        let ies ← (memmove ies f.ptr (f.ptr + f.len) remain_len).bind fun ies =>
          memset ies (f.ptr + remain_len) f.len
        delIeLoop n ies (usub ies_len f.len)

/-- The loop of `rtw_del_p2p_attr` and `rtw_del_wfd_attr`. -/
def delAttrLoop (attr_id : Byte) : ℕ → List Byte → ℕ → Option (List Byte × ℕ)
  | 0, _, _ => none
  | n + 1, ie, ielen => do
    match ← getWfaAttr oui o m (some ie) ielen attr_id false with
    | none => some (ie, ielen)
    | some f =>
      if f.len = 0 then some (ie, ielen)
      else
        let remain_len := usub ielen (f.ptr + f.len)
        let ie ← (memmove ie f.ptr (f.ptr + f.len) remain_len).bind fun ie =>
          memset ie (f.ptr + remain_len) f.len
        delAttrLoop attr_id n (ie.modify 1 (· - BitVec.ofNat 8 f.len)) (usub ielen f.len)

end Model

/-- `WLAN_BSSID_EX`: `IEs`, `IELength`, and whether it is from a probe request. -/
structure BssEx where
  ies : List Byte
  ieLength : ℕ
  probReq : Bool
deriving DecidableEq

/-- `BSS_EX_FIXED_IE_OFFSET`. -/
def BssEx.fixedIeOffset (b : BssEx) : ℕ := if b.probReq then 0 else 12

/-- `BSS_EX_TLV_IES_LEN`. -/
def BssEx.tlvIesLen (b : BssEx) : ℕ := usub b.ieLength b.fixedIeOffset

section Bss

variable (oui : List Byte) (o : Order) (n : ℕ)

/-- `rtw_bss_ex_del_p2p_ie` and `rtw_bss_ex_del_wfd_ie`. -/
def bssExDelIe (b : BssEx) : Option BssEx :=
  (delIeLoop oui n n (b.ies.drop b.fixedIeOffset) b.tlvIesLen).map fun (ies, ies_len) =>
    { b with
      ies := b.ies.take b.fixedIeOffset ++ ies
      ieLength := usub b.ieLength (usub b.tlvIesLen ies_len) }

/-- The loop of `rtw_bss_ex_del_p2p_attr` and `rtw_bss_ex_del_wfd_attr`; `ies` is an offset in
`IEs`. -/
def bssExDelAttrLoop (attr_id : Byte) : ℕ → BssEx → ℕ → ℕ → Option BssEx
  | 0, _, _, _ => none
  | k + 1, b, ies, ies_len => do
    match ← getVendorIe oui n (some (b.ies.drop ies)) ies_len false with
    | none => some b
    | some f =>
      let ie := ies + f.ptr
      let next_ie_ori := ie + f.len
      let remain_len := usub b.ieLength next_ie_ori
      let (rest, ie_len) ← delAttrLoop oui o n attr_id n (b.ies.drop ie) f.len
      if ie_len ≠ f.len then
        let next_ie := ie + ie_len
        let mem ← (memmove (b.ies.take ie ++ rest) next_ie next_ie_ori remain_len).bind fun mem =>
          memset mem (next_ie + remain_len) (usub f.len ie_len)
        bssExDelAttrLoop attr_id k
          { b with ies := mem, ieLength := usub b.ieLength (usub f.len ie_len) } next_ie remain_len
      else
        bssExDelAttrLoop attr_id k { b with ies := b.ies.take ie ++ rest } next_ie_ori remain_len

/-- `rtw_bss_ex_del_p2p_attr` and `rtw_bss_ex_del_wfd_attr`. -/
def bssExDelAttr (attr_id : Byte) (b : BssEx) : Option BssEx :=
  bssExDelAttrLoop oui o n attr_id n b b.fixedIeOffset b.tlvIesLen

end Bss

/-- `rtw_bss_ex_del_p2p_ie`. -/
def rtwBssExDelP2pIe (n : ℕ) (b : BssEx) : Option BssEx := bssExDelIe p2pOui n b

/-- `rtw_bss_ex_del_wfd_ie`. -/
def rtwBssExDelWfdIe (n : ℕ) (b : BssEx) : Option BssEx := bssExDelIe wfdOui n b

/-- `rtw_bss_ex_del_p2p_attr`. -/
def rtwBssExDelP2pAttr (n : ℕ) (b : BssEx) (attr_id : Byte) : Option BssEx :=
  bssExDelAttr p2pOui .le n attr_id b

/-- `rtw_bss_ex_del_wfd_attr`. -/
def rtwBssExDelWfdAttr (n : ℕ) (b : BssEx) (attr_id : Byte) : Option BssEx :=
  bssExDelAttr wfdOui .be n attr_id b

/-! ## Elements -/

/-- A vendor element with the OUI and type. -/
def IsVendor (oui : List Byte) (e : Ie) : Prop := e.id = vendorSpecificIe ∧ e.body.take 4 = oui

instance (oui : List Byte) (e : Ie) : Decidable (IsVendor oui e) :=
  inferInstanceAs (Decidable (_ ∧ _))

/-- The finder takes an element for one with the OUI, for the bytes of it and behind it. -/
def Hit (oui : List Byte) (e : Ie) (post : List Ie) : Prop :=
  e.id = vendorSpecificIe ∧ (e.body ++ ieFormat.encode post).take 4 = oui

instance (oui : List Byte) (e : Ie) (post : List Ie) : Decidable (Hit oui e post) :=
  inferInstanceAs (Decidable (_ ∧ _))

/-- The BSS description holds the elements `es` behind the fixed part. -/
structure BssEx.Holds (b : BssEx) (fixed : List Byte) (es : List Ie) : Prop where
  fits : ieFormat.Fits es
  length_fixed : fixed.length = b.fixedIeOffset
  length_ies : b.ies.length = maxIeSz
  ieLength_eq : b.ieLength = fixed.length + (ieFormat.encode es).length
  ies_eq : ∃ tail, b.ies = fixed ++ (ieFormat.encode es ++ tail)

/-! ## What the finder finds -/

section Find

variable {oui : List Byte} {bs tail : List Byte}

theorem isVendorIe_extend {q : ℕ} (houi : oui.length = 4) (h : q + 5 < bs.length) :
    isVendorIe oui (bs ++ tail) q = isVendorIe oui bs q := by
  rw [isVendorIe, isVendorIe, List.getElem?_append_left (by omega),
    memcmp_of_le (by rw [List.length_append]; omega), memcmp_of_le (by omega),
    slice_append (by omega)]

/-- What is behind the given length makes no difference to a finder. -/
theorem ieStep_extend (houi : oui.length = 4) :
    ieStep oui (bs ++ tail) bs.length false = ieStep oui bs bs.length false := by
  funext q
  rw [ieStep, ieStep]
  refine if_ctx_congr Iff.rfl (fun hin => ?_) fun _ => rfl
  rw [isVendorIe_extend houi hin, List.getElem?_append_left (by omega)]
  rfl

/-- No element of `pre` is a hit, with `post` behind it. -/
def NoHits (oui : List Byte) : List Ie → List Ie → Prop
  | [], _ => True
  | e :: pre, post => ¬ Hit oui e (pre ++ post) ∧ NoHits oui pre post

/-- Either no element is a hit, or there is a first one. -/
theorem noHits_or_first (oui : List Byte) (es : List Ie) :
    NoHits oui es [] ∨ ∃ pre e post, es = pre ++ e :: post ∧ NoHits oui pre (e :: post)
      ∧ Hit oui e post := by
  induction es with
  | nil => exact .inl trivial
  | cons x es ih =>
    by_cases hx : Hit oui x es
    · exact .inr ⟨[], x, es, rfl, trivial, hx⟩
    · rcases ih with hno | ⟨pre, e, post, rfl, hpre, he⟩
      · exact .inl ⟨by rwa [List.append_nil], hno⟩
      · exact .inr ⟨x :: pre, e, post, rfl, ⟨hx, hpre⟩, he⟩

theorem noHits_iff {es : List Ie} :
    NoHits oui es [] ↔ ∀ pre e post, es = pre ++ e :: post → ¬ Hit oui e post := by
  induction es with
  | nil => exact iff_of_true trivial fun pre e post h => by cases pre <;> cases h
  | cons x es ih =>
    rw [NoHits, ih, List.append_nil]
    constructor
    · rintro ⟨hx, hes⟩ pre e post h
      cases pre with
      | nil =>
        obtain ⟨rfl, rfl⟩ := List.cons.inj h
        exact hx
      | cons y pre => exact hes pre e post (List.cons.inj h).2
    · exact fun h => ⟨h [] x es rfl, fun pre e post hes => h (x :: pre) e post (by rw [hes]; rfl)⟩

/-- A hit has enough bytes behind it for the loop to look at it. -/
theorem Hit.le {e : Ie} {post : List Ie} (houi : oui.length = 4) (h : Hit oui e post) :
    4 ≤ (e.body ++ ieFormat.encode post).length := by
  have := congrArg List.length h.2
  rw [List.length_take, houi] at this
  omega

section Step

variable {a : List Byte} {e : Ie} {post : List Ie}

/-- The finder stops exactly at the hits. -/
theorem isMatch_iff (houi : oui.length = 4)
    (hmax : (a ++ ieFormat.encode (e :: post)).length ≤ maxIeSz) :
    IsMatch oui (a ++ ieFormat.encode (e :: post)) a.length ↔ Hit oui e post := by
  have hlen : (a ++ ieFormat.encode (e :: post)).length
      = a.length + (2 + (e.body ++ ieFormat.encode post).length) := by
    rw [List.length_append, length_encode_cons]
  rw [hlen] at hmax
  rw [IsMatch, hlen, isVendorIe_append]
  constructor
  · rintro ⟨hin, -, hv⟩
    by_cases hid : e.id = vendorSpecificIe
    · rw [if_pos hid, memcmp_of_le (by rw [length_encode_cons]; omega), slice_oui _ _ houi,
        Option.some.injEq, beq_iff_eq] at hv
      exact ⟨hid, hv⟩
    · rw [if_neg hid] at hv
      cases hv
  · intro hhit
    have hle := hhit.le houi
    refine ⟨by omega, by omega, ?_⟩
    rw [if_pos hhit.1, memcmp_of_le (by rw [length_encode_cons]; omega), slice_oui _ _ houi, hhit.2,
      beq_self_eq_true]

theorem ieLen_append (he : e.body.length ≤ 255) :
    ieLen (a ++ ieFormat.encode (e :: post)) a.length = 2 + e.body.length := by
  rw [ieLen, List.getD_eq_getElem?_getD, read_length, Option.getD_some, toNat_length he,
    Nat.add_comm]

end Step

/-- The walk of a finder over elements that are no hits. -/
theorem walk_noHits (houi : oui.length = 4) {n : ℕ} {r : Option Found} (a : List Byte)
    {pre rest : List Ie} (hfits : ieFormat.Fits pre)
    (hmax : (a ++ ieFormat.encode (pre ++ rest)).length ≤ maxIeSz) (hno : NoHits oui pre rest)
    (hrest : walk (ieStep oui (a ++ ieFormat.encode (pre ++ rest))
        (a ++ ieFormat.encode (pre ++ rest)).length false) n (a ++ ieFormat.encode pre).length =
          some r)
    (hnone : (a ++ ieFormat.encode (pre ++ rest)).length ≤ (a ++ ieFormat.encode pre).length + 5 →
      r = none) :
    walk (ieStep oui (a ++ ieFormat.encode (pre ++ rest))
        (a ++ ieFormat.encode (pre ++ rest)).length false) (n + pre.length) a.length = some r := by
  induction pre generalizing a with
  | nil =>
    rw [List.length_nil, Nat.add_zero]
    rwa [Format.encode_nil, List.append_nil] at hrest
  | cons e pre ih =>
    obtain ⟨he, hfits⟩ := ieFormat.fits_cons.mp hfits
    obtain ⟨hhit, hno⟩ := hno
    have hbs : a ++ ieFormat.encode (e :: pre ++ rest)
        = (a ++ ieFormat.enc e) ++ ieFormat.encode (pre ++ rest) := by
      rw [List.append_assoc]
      rfl
    have hmid : a ++ ieFormat.encode (e :: pre) = (a ++ ieFormat.enc e) ++ ieFormat.encode pre := by
      rw [List.append_assoc]
      rfl
    rw [List.length_cons, ← Nat.add_assoc, List.cons_append]
    by_cases hin : a.length + 5 < (a ++ ieFormat.encode (e :: (pre ++ rest))).length
    · have hgo := ieStep_of_not_match houi hin (Nat.lt_of_lt_of_le hin hmax)
        (fun hv => hhit ((isMatch_iff houi hmax).mp ⟨hin, Nat.lt_of_lt_of_le hin hmax, hv⟩)) false
      have hnext : a.length + ieLen (a ++ ieFormat.encode (e :: (pre ++ rest))) a.length
          = (a ++ ieFormat.enc e).length := by
        rw [ieLen_append he, List.length_append, Format.length_enc]
        rfl
      rw [walk_goto hgo, hnext]
      rw [hbs, hmid] at hrest hnone
      rw [hbs] at hmax
      have hih := ih (a ++ ieFormat.enc e) hfits hmax hno hrest hnone
      rwa [← hbs] at hih
    · -- there are not enough bytes for another OUI
      have hend : ieStep oui (a ++ ieFormat.encode (e :: (pre ++ rest)))
          (a ++ ieFormat.encode (e :: (pre ++ rest))).length false a.length = some (.done none) :=
        ieStep_of_end (fun h => hin h.1) false
      have hle : a.length ≤ (a ++ ieFormat.encode (e :: pre)).length := by
        rw [List.length_append]
        exact Nat.le_add_right _ _
      rw [hnone (Nat.le_trans (Nat.not_lt.mp hin) (Nat.add_le_add_right hle 5)), walk_done hend]

variable {es : List Ie} {n : ℕ}

/-- The finder returns the first hit. -/
theorem getVendorIe_of_first (houi : oui.length = 4) (hfits : ieFormat.Fits es)
    (hmax : (ieFormat.encode es).length ≤ maxIeSz) (hn : es.length < n) (tail : List Byte)
    {pre post : List Ie} {e : Ie} (hes : es = pre ++ e :: post) (hno : NoHits oui pre (e :: post))
    (hhit : Hit oui e post) :
    getVendorIe oui n (some (ieFormat.encode es ++ tail)) (ieFormat.encode es).length false
      = some (some ⟨(ieFormat.encode pre).length, 2 + e.body.length, []⟩) := by
  subst hes
  obtain ⟨hpre, hpost⟩ := List.forall_mem_append.mp hfits
  obtain ⟨he, -⟩ := ieFormat.fits_cons.mp hpost
  have hbs : ieFormat.encode (pre ++ e :: post) =
    ieFormat.encode pre ++ ieFormat.encode (e :: post) :=
    ieFormat.encode_append _ _
  have hmatch : IsMatch oui (ieFormat.encode (pre ++ e :: post)) (ieFormat.encode pre).length := by
    rw [hbs] at hmax ⊢
    exact (isMatch_iff houi hmax).mpr hhit
  have hstep : ieStep oui (ieFormat.encode (pre ++ e :: post))
      (ieFormat.encode (pre ++ e :: post)).length false (ieFormat.encode pre).length
      = some (.done (some ⟨(ieFormat.encode pre).length, 2 + e.body.length, []⟩)) := by
    rw [ieStep_of_match hmatch, hbs, ieLen_append he]
    rfl
  have hwalk := walk_noHits houi [] hpre hmax hno (walk_done hstep (n := 0)) (fun hle => by
    have := hmatch.1
    rw [List.nil_append, List.nil_append] at hle
    omega)
  have hpos : ¬ ((ieFormat.encode (pre ++ e :: post)).length : ℤ) ≤ 0 := by
    have := hmatch.1
    omega
  rw [getVendorIe, if_neg hpos, Int.toNat_natCast, ieStep_extend houi]
  refine walk_mono hwalk ?_
  rw [List.length_append, List.length_cons] at hn
  omega

/-- It returns `NULL` if there is none. -/
theorem getVendorIe_of_noHits (houi : oui.length = 4) (hfits : ieFormat.Fits es)
    (hmax : (ieFormat.encode es).length ≤ maxIeSz) (hn : es.length < n) (tail : List Byte)
    (hno : NoHits oui es []) :
    getVendorIe oui n (some (ieFormat.encode es ++ tail)) (ieFormat.encode es).length false
      = some none := by
  by_cases hempty : ((ieFormat.encode es).length : ℤ) ≤ 0
  · rw [getVendorIe, if_pos hempty]
  · have hend : ieStep oui (ieFormat.encode (es ++ [])) (ieFormat.encode (es ++ [])).length false
        (ieFormat.encode es).length = some (.done none) :=
      ieStep_of_end (by rw [List.append_nil]; omega) false
    have hwalk := walk_noHits houi [] hfits (by rwa [List.append_nil, List.nil_append]) hno
      (walk_done hend (n := 0)) fun _ => rfl
    rw [List.append_nil, List.nil_append] at hwalk
    rw [getVendorIe, if_neg hempty, Int.toNat_natCast, ieStep_extend houi]
    exact walk_mono hwalk (by omega)

end Find

/-! ## Short elements -/

/-- The OUI of the Wi-Fi Alliance with a type that is no identifier of vendor elements. -/
def IsWfa (oui : List Byte) : Prop := ∃ t, oui = [0x50, 0x6F, 0x9A, t] ∧ t ≠ vendorSpecificIe

theorem isWfa_p2pOui : IsWfa p2pOui := ⟨_, rfl, by decide⟩

theorem isWfa_wfdOui : IsWfa wfdOui := ⟨_, rfl, by decide⟩

theorem IsWfa.length {oui : List Byte} (h : IsWfa oui) : oui.length = 4 := by
  obtain ⟨t, rfl, -⟩ := h
  rfl

section Short

variable {oui : List Byte} {e : Ie} {post : List Ie}

theorem IsVendor.length (houi : oui.length = 4) (h : IsVendor oui e) : 4 ≤ e.body.length := by
  have := congrArg List.length h.2
  rw [List.length_take, houi] at this
  omega

/-- An element with the OUI is a hit, whatever is behind it. -/
theorem IsVendor.hit (houi : oui.length = 4) (h : IsVendor oui e) (post : List Ie) :
    Hit oui e post :=
  ⟨h.1, by rw [List.take_append_of_le_length (h.length houi)]; exact h.2⟩

/-- A hit without the OUI is too short for one. -/
theorem Hit.short (h : Hit oui e post) (hv : ¬ IsVendor oui e) : e.body.length < 4 := by
  by_contra hge
  have htake := h.2
  rw [List.take_append_of_le_length (Nat.not_lt.mp hge)] at htake
  exact hv ⟨h.1, htake⟩

/-- What makes a short element a hit is the next element alone, and that is no vendor element. -/
theorem Hit.next (hw : IsWfa oui) (hfits : ieFormat.Fits post) (h : Hit oui e post)
    (hv : ¬ IsVendor oui e) :
    ∃ e' post', post = e' :: post' ∧ e'.id ≠ vendorSpecificIe
      ∧ ∀ post'', Hit oui e (e' :: post'') := by
  have hshort := h.short hv
  have hle := h.le hw.length
  obtain ⟨t, rfl, ht⟩ := hw
  obtain ⟨hid, htake⟩ := h
  cases post with
  | nil =>
    rw [Format.encode_nil, List.append_nil] at hle
    omega
  | cons e' post' =>
    have henc : ∀ es, ieFormat.encode (e' :: es)
        = e'.id :: BitVec.ofNat 8 e'.body.length :: (e'.body ++ ieFormat.encode es) := by
      intro es
      rw [Format.encode_cons, Format.enc, List.append_assoc]
      rfl
    have he' : e'.body.length ≤ 255 := (ieFormat.fits_cons.mp hfits).1
    have hlen := toNat_length he'
    refine ⟨e', post', rfl, ?_⟩
    obtain ⟨id, body⟩ := e
    -- the cases are the number of bytes of the OUI that the element itself has
    rcases body with _ | ⟨b0, _ | ⟨b1, _ | ⟨b2, _ | ⟨b3, body⟩⟩⟩⟩
    · simp only [List.nil_append, henc, List.take_succ_cons, List.cons.injEq] at htake
      obtain ⟨h0, h1, hrest⟩ := htake
      rw [h1] at hlen
      have htwo : 2 ≤ e'.body.length := hlen ▸ (by decide)
      rw [List.take_append_of_le_length htwo] at hrest
      refine ⟨by rw [h0]; decide, fun post'' => ⟨hid, ?_⟩⟩
      simp only [List.nil_append, henc, List.take_succ_cons, h0, h1,
        List.take_append_of_le_length htwo, hrest]
    · simp only [List.cons_append, List.nil_append, henc, List.take_succ_cons,
        List.cons.injEq] at htake
      obtain ⟨hb, h0, h1, hrest⟩ := htake
      rw [h1] at hlen
      have hone : 1 ≤ e'.body.length := hlen ▸ (by decide)
      rw [List.take_append_of_le_length hone] at hrest
      refine ⟨by rw [h0]; decide, fun post'' => ⟨hid, ?_⟩⟩
      simp only [List.cons_append, List.nil_append, henc, List.take_succ_cons, hb, h0, h1,
        List.take_append_of_le_length hone, hrest]
    · simp only [List.cons_append, List.nil_append, henc, List.take_succ_cons, List.take_zero,
        List.cons.injEq] at htake
      obtain ⟨hb0, hb1, h0, h1, -⟩ := htake
      refine ⟨by rw [h0]; decide, fun post'' => ⟨hid, ?_⟩⟩
      simp only [List.cons_append, List.nil_append, henc, List.take_succ_cons, List.take_zero, hb0,
        hb1, h0, h1]
    · simp only [List.cons_append, List.nil_append, henc, List.take_succ_cons, List.take_zero,
        List.cons.injEq] at htake
      obtain ⟨hb0, hb1, hb2, h0, -⟩ := htake
      refine ⟨by rw [h0]; exact ht, fun post'' => ⟨hid, ?_⟩⟩
      simp only [List.cons_append, List.nil_append, henc, List.take_succ_cons, List.take_zero, hb0,
        hb1, hb2, h0]
    · change body.length + 1 + 1 + 1 + 1 < 4 at hshort
      omega

/-- The elements without the OUI. -/
def others (oui : List Byte) (es : List Ie) : List Ie := es.filter (¬ IsVendor oui ·)

/-- No element is taken for one with the OUI. -/
def Clear (oui : List Byte) (es : List Ie) : Prop :=
  ∀ pre e post, es = pre ++ e :: post → ¬ Hit oui e post

/-- If the other elements are clear among themselves, every hit has the OUI. -/
theorem Hit.isVendor (hw : IsWfa oui) {pre : List Ie} (hfits : ieFormat.Fits (pre ++ e :: post))
    (hclear : Clear oui (others oui (pre ++ e :: post))) (h : Hit oui e post) : IsVendor oui e := by
  by_contra hv
  obtain ⟨-, hpost⟩ := List.forall_mem_append.mp hfits
  obtain ⟨e', post', rfl, hid, hhit⟩ := h.next hw (ieFormat.fits_cons.mp hpost).2 hv
  have hv' : ¬ IsVendor oui e' := fun h => hid h.1
  refine hclear (others oui pre) e (e' :: others oui post') ?_ (hhit _)
  simp [others, hv, hv']

end Short

/-! ## Deleting elements -/

theorem usub_eq {a b : ℕ} (hb : b ≤ a) (ha : a < 2 ^ 32) : usub a b = a - b := by
  rw [usub]
  omega

section DelIe

variable {oui : List Byte} {m : ℕ}

/-- One deletion: the element is cut out. -/
theorem delIeLoop_of_first (houi : oui.length = 4) {es : List Ie} (hfits : ieFormat.Fits es)
    (hmax : (ieFormat.encode es).length ≤ maxIeSz) (hm : es.length < m) (tail : List Byte)
    {pre post : List Ie} {e : Ie} (hes : es = pre ++ e :: post) (hno : NoHits oui pre (e :: post))
    (hhit : Hit oui e post) (n : ℕ) :
    delIeLoop oui m (n + 1) (ieFormat.encode es ++ tail) (ieFormat.encode es).length
      = delIeLoop oui m n
          (ieFormat.encode (pre ++ post) ++ (List.replicate (2 + e.body.length) 0 ++ tail))
          (ieFormat.encode (pre ++ post)).length := by
  have hfind := getVendorIe_of_first houi hfits hmax hm tail hes hno hhit
  have hlen : (ieFormat.encode es).length
      = (ieFormat.encode pre).length + ((2 + e.body.length) + (ieFormat.encode post).length) := by
    rw [hes, Format.encode_append, Format.encode_cons, List.length_append, List.length_append,
      Format.length_enc]
    rfl
  have hsmall : (ieFormat.encode es).length < 2 ^ 32 := Nat.lt_of_le_of_lt hmax (by decide)
  have hremain : usub (ieFormat.encode es).length
    ((ieFormat.encode pre).length + (2 + e.body.length))
      = (ieFormat.encode post).length := by
    rw [usub_eq (by omega) hsmall]
    omega
  have hnext : usub (ieFormat.encode es).length (2 + e.body.length)
      = (ieFormat.encode (pre ++ post)).length := by
    rw [usub_eq (by omega) hsmall, Format.encode_append, List.length_append]
    omega
  have hmem : ieFormat.encode es ++ tail
      = ieFormat.encode pre ++ (ieFormat.enc e ++ (ieFormat.encode post ++ tail)) := by
    rw [hes, Format.encode_append, Format.encode_cons]
    simp only [List.append_assoc]
  have hcut := memmove_memset (ieFormat.encode pre) (ieFormat.enc e) (ieFormat.encode post) tail
  have henc : (ieFormat.enc e).length = 2 + e.body.length := Format.length_enc _ _
  rw [henc, ← hmem] at hcut
  have hne : ¬ 2 + e.body.length = 0 := by omega
  rw [delIeLoop]
  simp only [Option.bind_eq_bind, hfind, Option.bind_some, if_neg hne, hremain, hnext, hcut]
  rw [Format.encode_append, List.append_assoc]

theorem others_append_cons {pre post : List Ie} {e : Ie} (h : IsVendor oui e) :
    others oui (pre ++ e :: post) = others oui (pre ++ post) := by
  simp [others, h]

/-- The whole deletion, where the other elements are clear among themselves. The induction is on the
number of elements. -/
theorem delIeLoop_of_clear (hw : IsWfa oui) {es : List Ie} (hfits : ieFormat.Fits es)
    (hmax : (ieFormat.encode es).length ≤ maxIeSz) (hm : es.length < m)
    (hclear : Clear oui (others oui es)) {n : ℕ} (hn : es.length < n) (tail : List Byte) :
    ∃ tail', delIeLoop oui m n (ieFormat.encode es ++ tail) (ieFormat.encode es).length
        = some (ieFormat.encode (others oui es) ++ tail', (ieFormat.encode (others oui es)).length)
      ∧ (ieFormat.encode (others oui es) ++ tail').length =
        (ieFormat.encode es ++ tail).length := by
  induction n generalizing es tail with
  | zero => exact absurd hn (Nat.not_lt_zero _)
  | succ n ih =>
    rcases noHits_or_first oui es with hno | ⟨pre, e, post, hes, hno, hhit⟩
    · have hothers : others oui es = es := by
        rw [others, List.filter_eq_self]
        intro e he
        obtain ⟨pre, post, hes⟩ := List.append_of_mem he
        exact decide_eq_true fun hv => noHits_iff.mp hno pre e post hes (hv.hit hw.length post)
      have hfind := getVendorIe_of_noHits hw.length hfits hmax hm tail hno
      rw [hothers]
      refine ⟨tail, ?_, rfl⟩
      rw [delIeLoop]
      simp only [Option.bind_eq_bind, hfind, Option.bind_some]
    · have hv : IsVendor oui e := by
        subst hes
        exact hhit.isVendor hw hfits hclear
      have hstep := delIeLoop_of_first hw.length hfits hmax hm tail hes hno hhit n
      subst hes
      have hfits' : ieFormat.Fits (pre ++ post) := by
        obtain ⟨hpre, hpost⟩ := List.forall_mem_append.mp hfits
        exact List.forall_mem_append.mpr ⟨hpre, (ieFormat.fits_cons.mp hpost).2⟩
      have hlen : (ieFormat.encode (pre ++ e :: post)).length
          = (ieFormat.encode (pre ++ post)).length + (2 + e.body.length) := by
        rw [Format.encode_append, Format.encode_append, Format.encode_cons, List.length_append,
          List.length_append, List.length_append, Format.length_enc]
        change _ + (2 + _ + _) = _
        omega
      rw [others_append_cons hv] at hclear ⊢
      rw [List.length_append, List.length_cons] at hn hm
      obtain ⟨tail', hloop, htail⟩ :=
        ih hfits' (by omega) (by rw [List.length_append]; omega) hclear
        (by rw [List.length_append]; omega) (List.replicate (2 + e.body.length) 0 ++ tail)
      refine ⟨tail', by rw [hstep, hloop], htail.trans ?_⟩
      rw [List.length_append, List.length_append, List.length_append, List.length_replicate, hlen]
      omega

/-- What a finder returns does not depend on the number of iterations it is given. -/
theorem getVendorIe_unique {n k : ℕ} {ies : Option (List Byte)} {in_len : ℤ} {buf : Bool}
    {r r' : Option Found} (h : getVendorIe oui n ies in_len buf = some r)
    (h' : getVendorIe oui k ies in_len buf = some r') : r = r' := by
  cases ies with
  | none => exact Option.some.inj (h.symm.trans h')
  | some ies =>
    rw [getVendorIe] at h h'
    split at h
    · rw [if_pos ‹_›] at h'
      exact Option.some.inj (h.symm.trans h')
    · rw [if_neg ‹_›] at h'
      exact walk_unique h h'

/-- An element that is found is not empty. -/
theorem two_le_of_getVendorIe {n : ℕ} {ies : List Byte} {in_len : ℤ} {f : Found}
    (h : getVendorIe oui n (some ies) in_len false = some (some f)) : 2 ≤ f.len := by
  rw [getVendorIe] at h
  by_cases hle : in_len ≤ 0
  · rw [if_pos hle] at h
    cases h
  · rw [if_neg hle] at h
    obtain ⟨q, -, hdone⟩ := walk_reaches h
    rw [ieStep] at hdone
    split at hdone
    · split at hdone
      · cases hdone
      · obtain ⟨found, -, hdone⟩ := Option.bind_eq_some_iff.mp hdone
        obtain ⟨l, -, hdone⟩ := Option.bind_eq_some_iff.mp hdone
        split at hdone
        · cases hdone
          exact Nat.le_add_left 2 _
        · cases hdone
    · cases hdone

/-- When the deletion is over, the finder finds nothing any more. -/
theorem getVendorIe_of_delIeLoop {n : ℕ} {ies ies' : List Byte} {ies_len ies_len' : ℕ}
    (h : delIeLoop oui m n ies ies_len = some (ies', ies_len')) :
    getVendorIe oui m (some ies') ies_len' false = some none := by
  induction n generalizing ies ies_len with
  | zero => cases h
  | succ n ih =>
    rw [delIeLoop] at h
    obtain ⟨r, hfind, h⟩ := Option.bind_eq_some_iff.mp h
    cases r with
    | none =>
      cases h
      exact hfind
    | some f =>
      have hne : ¬ f.len = 0 := by
        have := two_le_of_getVendorIe hfind
        omega
      simp only [if_neg hne] at h
      obtain ⟨_, -, h⟩ := Option.bind_eq_some_iff.mp h
      exact ih h

/-- So that what is left, if it is a sequence of elements, is clear. -/
theorem clear_of_delIeLoop (houi : oui.length = 4) {n ies_len : ℕ} {ies tail : List Byte}
    {es : List Ie} (hfits : ieFormat.Fits es) (hmax : (ieFormat.encode es).length ≤ maxIeSz)
    (h : delIeLoop oui m n ies ies_len = some (ieFormat.encode es ++ tail,
      (ieFormat.encode es).length)) :
    Clear oui es := by
  have hnone := getVendorIe_of_delIeLoop h
  rcases noHits_or_first oui es with hno | ⟨pre, e, post, hes, hno, hhit⟩
  · exact noHits_iff.mp hno
  · -- a search with enough iterations would find the first hit
    have hm : es.length < max m (es.length + 1) := by omega
    have hfind := getVendorIe_of_first houi hfits hmax hm tail hes hno hhit
    exact absurd (getVendorIe_unique hnone hfind) (by simp)

end DelIe

/-! ## Deleting attributes of an element -/

section DelAttr

variable {oui : List Byte} {o : Order} {attr_id : Byte} {m : ℕ}

/-- What is behind the given length makes no difference to the search for an attribute. -/
theorem wfaAttrStep_extend {ie tail : List Byte} :
    wfaAttrStep o (ie ++ tail) ie.length attr_id false =
      wfaAttrStep o ie ie.length attr_id false := by
  funext q
  rw [wfaAttrStep, wfaAttrStep]
  refine if_ctx_congr Iff.rfl (fun hin => ?_) fun _ => rfl
  have hget : o.get16 (ie ++ tail) (q + 1) = o.get16 ie (q + 1) := by
    cases o <;> simp only [Order.get16, getLe16, getBe16] <;>
      rw [List.getElem?_append_left (by omega), List.getElem?_append_left (by omega)]
  rw [hget, List.getElem?_append_left (by omega)]
  rfl

theorem getWfaAttr_extend (houi : oui.length = 4) {n : ℕ} {ie tail : List Byte} :
    getWfaAttr oui o n (some (ie ++ tail)) ie.length attr_id false
      = getWfaAttr oui o n (some ie) ie.length attr_id false := by
  rw [getWfaAttr, getWfaAttr]
  refine if_ctx_congr Iff.rfl (fun _ => rfl) fun h6 => ?_
  rw [isVendorIe_extend houi (by omega), wfaAttrStep_extend]

/-- An element with an attribute list. -/
def attrIe (oui : List Byte) (o : Order) (as : List (Elem Byte)) : Ie :=
  ⟨vendorSpecificIe, oui ++ (wfaFormat o).encode as⟩

theorem length_attrIe (houi : oui.length = 4) (as : List (Elem Byte)) :
    (attrIe oui o as).body.length = 4 + ((wfaFormat o).encode as).length := by
  rw [attrIe, List.length_append, houi]

/-- The header of such an element, and its attributes. -/
theorem enc_attrIe (as : List (Elem Byte)) :
    ieFormat.enc (attrIe oui o as)
      = (vendorSpecificIe :: BitVec.ofNat 8 (attrIe oui o as).body.length :: oui)
        ++ (wfaFormat o).encode as := rfl

/-- The search for an attribute in it finds the first one. -/
theorem getWfaAttr_attrIe (attr_id : Byte) (houi : oui.length = 4) {as : List (Elem Byte)}
    (hlen : (attrIe oui o as).body.length ≤ 255) (hm : as.length < m) (rest : List Byte) :
    ∃ r, getWfaAttr oui o m (some (ieFormat.enc (attrIe oui o as) ++ rest))
        (ieFormat.enc (attrIe oui o as)).length attr_id false = some r
      ∧ FirstAttr (wfaFormat o) attr_id as 6 0 r := by
  have henc : (ieFormat.enc (attrIe oui o as)).length = 6 + ((wfaFormat o).encode as).length := by
    rw [Format.length_enc, length_attrIe houi]
    change 2 + (4 + _) = _
    omega
  rw [getWfaAttr_extend houi]
  by_cases h6 : (ieFormat.enc (attrIe oui o as)).length ≤ 6
  · have hnil : as = [] := by
      cases as with
      | nil => rfl
      | cons x as =>
        rw [henc, Format.encode_cons, List.length_append, Format.length_enc] at h6
        change 6 + (3 + _ + _) ≤ 6 at h6
        omega
    subst hnil
    exact ⟨none, if_pos h6, .nil⟩
  · have hlen' : (ieFormat.enc (attrIe oui o as)).length ≤ 257 := by
      rw [Format.length_enc]
      exact Nat.add_le_add_left hlen 2
    have hslice : slice (ieFormat.enc (attrIe oui o as)) 2 oui.length = oui :=
      slice_middle (a := [vendorSpecificIe, BitVec.ofNat 8 (attrIe oui o as).body.length]) rfl rfl
    have hv : isVendorIe oui (ieFormat.enc (attrIe oui o as)) 0 = some true := by
      have h0 : (ieFormat.enc (attrIe oui o as))[0]? = some vendorSpecificIe := rfl
      rw [isVendorIe, h0, Option.bind_eq_bind, Option.bind_some, if_pos rfl,
        memcmp_of_le (by omega),
        hslice, beq_self_eq_true]
    have hend : wfaAttrStep o (ieFormat.enc (attrIe oui o as))
        (ieFormat.enc (attrIe oui o as)).length attr_id false
        (ieFormat.enc (attrIe oui o as)).length = some (.done none) := if_neg (by omega)
    have hsix : (vendorSpecificIe :: BitVec.ofNat 8 (attrIe oui o as).body.length :: oui).length
        = 6 := by
      rw [List.length_cons, List.length_cons, houi]
    obtain ⟨r, hwalk, hfirst⟩ :=
      walk_first (wfaAttrStep_append hlen' false) hend _ (enc_attrIe as)
    rw [hsix] at hwalk hfirst
    refine ⟨r, ?_, hfirst⟩
    rw [getWfaAttr, if_neg h6, hv]
    exact walk_mono hwalk (by omega)

/-- The attributes that are left. -/
def kept (attr_id : Byte) (as : List (Elem Byte)) : List (Elem Byte) := as.filter (·.id ≠ attr_id)

theorem kept_cons_of_ne {x : Elem Byte} {as : List (Elem Byte)} (h : x.id ≠ attr_id) :
    kept attr_id (x :: as) = x :: kept attr_id as :=
  List.filter_cons_of_pos (decide_eq_true h)

/-- Either no attribute has the identifier, or there is a first one. -/
theorem kept_or_first (attr_id : Byte) (as : List (Elem Byte)) :
    ((∀ x ∈ as, x.id ≠ attr_id) ∧ kept attr_id as = as)
      ∨ ∃ pre x post, as = pre ++ x :: post ∧ x.id = attr_id ∧ (∀ y ∈ pre, y.id ≠ attr_id)
        ∧ kept attr_id as = kept attr_id (pre ++ post) := by
  induction as with
  | nil => exact .inl ⟨by simp, rfl⟩
  | cons y as ih =>
    by_cases hy : y.id = attr_id
    · exact .inr ⟨[], y, as, rfl, hy, by simp, by simp [kept, hy]⟩
    · rcases ih with ⟨hall, hkept⟩ | ⟨pre, x, post, rfl, hx, hpre, hkept⟩
      · refine .inl ⟨List.forall_mem_cons.mpr ⟨hy, hall⟩, ?_⟩
        rw [kept_cons_of_ne hy, hkept]
      · refine .inr ⟨y :: pre, x, post, rfl, hx, List.forall_mem_cons.mpr ⟨hy, hpre⟩, ?_⟩
        rw [List.cons_append, kept_cons_of_ne hy, hkept, kept_cons_of_ne hy]

/-- One deletion: the attribute is cut out, and the length byte is adjusted. -/
theorem delAttrLoop_of_first (houi : oui.length = 4) {pre post : List (Elem Byte)} {x : Elem Byte}
    (hlen : (attrIe oui o (pre ++ x :: post)).body.length ≤ 255)
    (hm : (pre ++ x :: post).length < m) (hx : x.id = attr_id)
    (hpre : ∀ y ∈ pre, y.id ≠ attr_id) (rest : List Byte) (n : ℕ) :
    delAttrLoop oui o m attr_id (n + 1) (ieFormat.enc (attrIe oui o (pre ++ x :: post)) ++ rest)
        (ieFormat.enc (attrIe oui o (pre ++ x :: post))).length
      = delAttrLoop oui o m attr_id n (ieFormat.enc (attrIe oui o (pre ++ post))
          ++ (List.replicate (3 + x.body.length) 0 ++ rest))
        (ieFormat.enc (attrIe oui o (pre ++ post))).length := by
  obtain ⟨r, hfind, hfirst⟩ := getWfaAttr_attrIe attr_id houi hlen hm rest
  obtain ⟨copy, rfl⟩ := hfirst.first pre x post rfl hx hpre
  -- the parts of the element: in front of the attribute, the attribute, and behind it
  obtain ⟨hd, hhd_eq⟩ : ∃ hd, hd = vendorSpecificIe
      :: BitVec.ofNat 8 (attrIe oui o (pre ++ x :: post)).body.length :: oui
        ++ (wfaFormat o).encode pre := ⟨_, rfl⟩
  have hhd : hd.length = 6 + ((wfaFormat o).encode pre).length := by
    rw [hhd_eq, List.length_append, List.length_cons, List.length_cons, houi]
  have hx3 : ((wfaFormat o).enc x).length = 3 + x.body.length := Format.length_enc _ _
  have hmem : ieFormat.enc (attrIe oui o (pre ++ x :: post))
      = hd ++ ((wfaFormat o).enc x ++ (wfaFormat o).encode post) := by
    rw [hhd_eq, enc_attrIe, Format.encode_append, Format.encode_cons, ← List.append_assoc]
  have hielen : (ieFormat.enc (attrIe oui o (pre ++ x :: post))).length
      = hd.length + ((3 + x.body.length) + ((wfaFormat o).encode post).length) := by
    rw [hmem, List.length_append, List.length_append, hx3]
  have hle : (ieFormat.enc (attrIe oui o (pre ++ x :: post))).length ≤ 257 := by
    rw [Format.length_enc]
    exact Nat.add_le_add_left hlen 2
  have hnew : (ieFormat.enc (attrIe oui o (pre ++ post))).length
      = hd.length + ((wfaFormat o).encode post).length := by
    rw [enc_attrIe, List.length_append, Format.encode_append, List.length_append, List.length_cons,
      List.length_cons, houi, hhd]
    omega
  have hptr : 6 + ((wfaFormat o).encode pre).length + 0 = hd.length := by rw [hhd, Nat.add_zero]
  have hfl : (wfaFormat o).hlen + x.body.length - 0 = 3 + x.body.length := rfl
  have hremain : usub (ieFormat.enc (attrIe oui o (pre ++ x :: post))).length
      (hd.length + (3 + x.body.length)) = ((wfaFormat o).encode post).length := by
    rw [usub_eq (by omega) (by omega)]
    omega
  have hnext : usub (ieFormat.enc (attrIe oui o (pre ++ x :: post))).length (3 + x.body.length)
      = (ieFormat.enc (attrIe oui o (pre ++ post))).length := by
    rw [usub_eq (by omega) (by omega)]
    omega
  have hcut := memmove_memset hd ((wfaFormat o).enc x) ((wfaFormat o).encode post) rest
  rw [hx3, ← List.append_assoc ((wfaFormat o).enc x), ← List.append_assoc hd, ← hmem] at hcut
  -- the length byte
  have hbyte : BitVec.ofNat 8 (attrIe oui o (pre ++ x :: post)).body.length
      - BitVec.ofNat 8 (3 + x.body.length)
      = BitVec.ofNat 8 (attrIe oui o (pre ++ post)).body.length := by
    have h1 : (attrIe oui o (pre ++ x :: post)).body.length
        = (attrIe oui o (pre ++ post)).body.length + (3 + x.body.length) := by
      rw [Format.length_enc, Format.length_enc] at *
      omega
    rw [h1, BitVec.ofNat_add, BitVec.add_sub_cancel]
  have hmod : (hd ++ ((wfaFormat o).encode post
        ++ (List.replicate (3 + x.body.length) 0 ++ rest))).modify 1
          (· - BitVec.ofNat 8 (3 + x.body.length))
      = ieFormat.enc (attrIe oui o (pre ++ post))
        ++ (List.replicate (3 + x.body.length) 0 ++ rest) := by
    rw [enc_attrIe, Format.encode_append, ← hbyte]
    simp only [hhd_eq, List.cons_append, List.append_assoc]
    rfl
  have hne : ¬ 3 + x.body.length = 0 := by omega
  rw [delAttrLoop]
  simp only [Option.bind_eq_bind, hfind, Option.bind_some, hptr, hfl, if_neg hne, hremain, hcut,
    hnext,
    hmod]

/-- All attributes with the identifier are cut out; as many bytes behind the element are cleared.
The induction is on the number of iterations. -/
theorem delAttrLoop_attrIe (attr_id : Byte) (houi : oui.length = 4) {as : List (Elem Byte)}
    (hlen : (attrIe oui o as).body.length ≤ 255) (hm : as.length < m) {n : ℕ} (hn : as.length < n)
    (rest : List Byte) :
    ∃ pad, delAttrLoop oui o m attr_id n (ieFormat.enc (attrIe oui o as) ++ rest)
        (ieFormat.enc (attrIe oui o as)).length
      = some (ieFormat.enc (attrIe oui o (kept attr_id as)) ++ (pad ++ rest),
          (ieFormat.enc (attrIe oui o (kept attr_id as))).length)
      ∧ (ieFormat.enc (attrIe oui o as)).length
        = (ieFormat.enc (attrIe oui o (kept attr_id as))).length + pad.length := by
  induction n generalizing as rest with
  | zero => exact absurd hn (Nat.not_lt_zero _)
  | succ n ih =>
    rcases kept_or_first attr_id as with ⟨hall, hkept⟩ | ⟨pre, x, post, rfl, hx, hpre, hkept⟩
    · obtain ⟨r, hfind, hfirst⟩ := getWfaAttr_attrIe attr_id houi hlen hm rest
      obtain rfl := hfirst.none_iff.mpr hall
      refine ⟨[], ?_, by rw [hkept]; rfl⟩
      rw [delAttrLoop, hkept]
      simp only [Option.bind_eq_bind, hfind, Option.bind_some, List.nil_append]
    · have hstep := delAttrLoop_of_first houi hlen hm hx hpre rest n
      have hsplit : (attrIe oui o (pre ++ x :: post)).body.length
          = (attrIe oui o (pre ++ post)).body.length + (3 + x.body.length) := by
        rw [length_attrIe houi, length_attrIe houi, Format.encode_append, Format.encode_append,
          Format.encode_cons, List.length_append, List.length_append, List.length_append,
          Format.length_enc]
        change _ + (_ + (3 + _ + _)) = _
        omega
      rw [List.length_append, List.length_cons] at hm hn
      have hlen' : (attrIe oui o (pre ++ post)).body.length ≤ 255 := by omega
      obtain ⟨pad, hloop, hpad⟩ := ih hlen' (by rw [List.length_append]; omega)
        (by rw [List.length_append]; omega) (List.replicate (3 + x.body.length) 0 ++ rest)
      refine ⟨pad ++ List.replicate (3 + x.body.length) 0, ?_, ?_⟩
      · rw [hstep, hloop, hkept, List.append_assoc]
      · rw [hkept, List.length_append, List.length_replicate, ← Nat.add_assoc, ← hpad,
          Format.length_enc, Format.length_enc, hsplit, Nat.add_assoc]

/-- An element that is too short for the OUI is left as it is. -/
theorem delAttrLoop_short {n ielen : ℕ} (h6 : ielen ≤ 6) (ie : List Byte) :
    delAttrLoop oui o m attr_id (n + 1) ie ielen = some (ie, ielen) := by
  rw [delAttrLoop, getWfaAttr, if_pos h6]
  rfl

end DelAttr

/-! ## Deleting attributes of all elements -/

section BssDelAttr

variable {oui : List Byte} {o : Order} {attr_id : Byte} {m : ℕ}

/-- `es'` are the elements `es` without the attributes with the identifier. -/
inductive DelAttrs (oui : List Byte) (o : Order) (attr_id : Byte) : List Ie → List Ie → Prop
  | nil : DelAttrs oui o attr_id [] []
  | other {e es es'} : ¬ IsVendor oui e → DelAttrs oui o attr_id es es' →
      DelAttrs oui o attr_id (e :: es) (e :: es')
  | vendor {as es es'} : DelAttrs oui o attr_id es es' →
      DelAttrs oui o attr_id (attrIe oui o as :: es) (attrIe oui o (kept attr_id as) :: es')

/-- Every element with the OUI has a list of attributes. -/
def HasAttrs (oui : List Byte) (o : Order) (es : List Ie) : Prop :=
  ∀ e ∈ es, IsVendor oui e → ∃ as, e = attrIe oui o as

theorem not_isVendor_of_noHits (houi : oui.length = 4) {pre post : List Ie}
    (h : NoHits oui pre post) : ∀ e ∈ pre, ¬ IsVendor oui e := by
  induction pre with
  | nil => simp
  | cons e pre ih =>
    rw [List.forall_mem_cons]
    exact ⟨fun hv => h.1 (hv.hit houi _), ih h.2⟩

theorem DelAttrs.self {es : List Ie} (h : ∀ e ∈ es, ¬ IsVendor oui e) :
    DelAttrs oui o attr_id es es := by
  induction es with
  | nil => exact .nil
  | cons e es ih =>
    rw [List.forall_mem_cons] at h
    exact .other h.1 (ih h.2)

theorem DelAttrs.append {pre post post' : List Ie} (hpre : ∀ e ∈ pre, ¬ IsVendor oui e)
    (h : DelAttrs oui o attr_id post post') : DelAttrs oui o attr_id (pre ++ post)
      (pre ++ post') := by
  induction pre with
  | nil => exact h
  | cons e pre ih =>
    rw [List.forall_mem_cons] at hpre
    exact .other hpre.1 (ih hpre.2)

/-- Attribute lists of elements are shorter than the iterations that are given to the searches. -/
theorem length_le_of_attrIe (houi : oui.length = 4) {as : List (Elem Byte)}
    (hlen : (attrIe oui o as).body.length ≤ 255) : as.length ≤ 251 := by
  have h := (wfaFormat o).length_le_length_encode (Nat.succ_pos 2) as
  rw [length_attrIe houi] at hlen
  omega

/-- One iteration: the element that was found is replaced by `e'`, which is shorter by `pad`. -/
theorem bssExDelAttrLoop_of_first (houi : oui.length = 4) {n k : ℕ} {b : BssEx}
    {fin tail pad : List Byte}
    {pre post : List Ie} {e e' : Ie} (hfits : ieFormat.Fits (pre ++ e :: post))
    (hmax : (ieFormat.encode (pre ++ e :: post)).length ≤ maxIeSz)
    (hn : (pre ++ e :: post).length < n) (hno : NoHits oui pre (e :: post)) (hhit : Hit oui e post)
    (hb : b.ies = fin ++ (ieFormat.encode (pre ++ e :: post) ++ tail))
    (hlen : b.ieLength = fin.length + (ieFormat.encode (pre ++ e :: post)).length)
    (hsmall : b.ieLength ≤ maxIeSz)
    (hdel : delAttrLoop oui o n attr_id n (ieFormat.enc e ++ (ieFormat.encode post ++ tail))
        (ieFormat.enc e).length
      = some (ieFormat.enc e' ++ (pad ++ (ieFormat.encode post ++ tail)), (ieFormat.enc e').length))
    (hpad : (ieFormat.enc e).length = (ieFormat.enc e').length + pad.length) :
    bssExDelAttrLoop oui o n attr_id (k + 1) b fin.length
        (ieFormat.encode (pre ++ e :: post)).length
      = bssExDelAttrLoop oui o n attr_id k
          { b with
            ies := (fin ++ (ieFormat.encode pre ++ ieFormat.enc e'))
              ++ (ieFormat.encode post ++ (List.replicate pad.length 0 ++ tail))
            ieLength := b.ieLength - pad.length }
          (fin ++ (ieFormat.encode pre ++ ieFormat.enc e')).length
            (ieFormat.encode post).length := by
  have hdrop : b.ies.drop fin.length = ieFormat.encode (pre ++ e :: post) ++ tail := by
    rw [hb, List.drop_left]
  have hfind := getVendorIe_of_first houi hfits hmax hn tail rfl hno hhit
  have henc : 2 + e.body.length = (ieFormat.enc e).length := (ieFormat.length_enc e).symm
  rw [henc] at hfind
  have hsplit : ieFormat.encode (pre ++ e :: post) ++ tail
      = ieFormat.encode pre ++ (ieFormat.enc e ++ (ieFormat.encode post ++ tail)) := by
    rw [Format.encode_append, Format.encode_cons]
    simp only [List.append_assoc]
  have htotal : (ieFormat.encode (pre ++ e :: post)).length = (ieFormat.encode pre).length
      + ((ieFormat.enc e).length + (ieFormat.encode post).length) := by
    rw [Format.encode_append, Format.encode_cons, List.length_append, List.length_append]
  have hie : (fin ++ ieFormat.encode pre).length = fin.length + (ieFormat.encode pre).length :=
    List.length_append
  have hmem : b.ies = (fin ++ ieFormat.encode pre)
      ++ (ieFormat.enc e ++ (ieFormat.encode post ++ tail)) := by
    rw [hb, hsplit, List.append_assoc]
  have hat : b.ies.drop (fin.length + (ieFormat.encode pre).length)
      = ieFormat.enc e ++ (ieFormat.encode post ++ tail) := by
    rw [hmem, ← hie, List.drop_left]
  have htake : b.ies.take (fin.length + (ieFormat.encode pre).length)
      = fin ++ ieFormat.encode pre := by
    rw [hmem, ← hie, List.take_left]
  have hbound : maxIeSz < 2 ^ 32 := by decide
  have hremain : usub b.ieLength (fin.length + (ieFormat.encode pre).length +
    (ieFormat.enc e).length)
      = (ieFormat.encode post).length := by
    rw [usub_eq (by omega) (by omega)]
    omega
  have hnext : (fin ++ (ieFormat.encode pre ++ ieFormat.enc e')).length
      = fin.length + (ieFormat.encode pre).length + (ieFormat.enc e').length := by
    rw [List.length_append, List.length_append, Nat.add_assoc]
  rw [bssExDelAttrLoop]
  simp only [Option.bind_eq_bind, hdrop, hfind, Option.bind_some, hat, hdel, hremain, htake]
  by_cases heq : (ieFormat.enc e').length = (ieFormat.enc e).length
  · -- nothing was deleted
    have hnil : pad = [] := List.length_eq_zero_iff.mp (by omega)
    subst hnil
    rw [if_neg (not_not_intro heq), hnext, heq]
    simp only [List.nil_append, List.append_assoc, List.length_nil, List.replicate_zero,
      Nat.sub_zero]
  · -- the elements behind are moved
    have hpadlen : usub (ieFormat.enc e).length (ieFormat.enc e').length = pad.length := by
      rw [usub_eq (by omega) (by omega)]
      omega
    have hcut := memmove_memset (fin ++ (ieFormat.encode pre ++ ieFormat.enc e')) pad
      (ieFormat.encode post) tail
    rw [hnext, Nat.add_assoc _ _ pad.length, ← hpad] at hcut
    rw [if_pos heq, hpadlen, usub_eq (by omega) (by omega), hnext]
    simp only [List.append_assoc] at hcut ⊢
    rw [hcut, Option.bind_some]

/-- The whole loop. The induction is on the number of elements that are still to be searched. -/
theorem bssExDelAttrLoop_spec (attr_id : Byte) (hw : IsWfa oui) {n k : ℕ} (hn : 768 < n) {b : BssEx}
    {fin tail : List Byte} {es : List Ie} (hfits : ieFormat.Fits es) (hattrs : HasAttrs oui o es)
    (hmax : fin.length + (ieFormat.encode es).length ≤ maxIeSz) (hk : es.length < k)
    (hb : b.ies = fin ++ (ieFormat.encode es ++ tail))
    (hlen : b.ieLength = fin.length + (ieFormat.encode es).length) :
    ∃ es' tail', DelAttrs oui o attr_id es es' ∧ ieFormat.Fits es'
      ∧ (fin ++ (ieFormat.encode es' ++ tail')).length = b.ies.length
      ∧ bssExDelAttrLoop oui o n attr_id k b fin.length (ieFormat.encode es).length
        = some { b with
            ies := fin ++ (ieFormat.encode es' ++ tail')
            ieLength := fin.length + (ieFormat.encode es').length } := by
  have houi := hw.length
  induction k generalizing es fin tail b with
  | zero => exact absurd hk (Nat.not_lt_zero _)
  | succ k ih =>
    have hes_len := ieFormat.length_le_length_encode (Nat.succ_pos 1) es
    have h768 : maxIeSz = 768 := rfl
    rcases noHits_or_first oui es with hno | ⟨pre, e, post, rfl, hno, hhit⟩
    · have hfind := getVendorIe_of_noHits houi hfits (by omega)
        (show es.length < n by omega) tail hno
      refine ⟨es, tail, .self (not_isVendor_of_noHits houi hno), hfits, by rw [hb], ?_⟩
      rw [bssExDelAttrLoop, hb, List.drop_left]
      simp only [Option.bind_eq_bind, hfind, Option.bind_some, ← hb, ← hlen]
    · obtain ⟨hpre, hrest⟩ := List.forall_mem_append.mp hfits
      obtain ⟨he, hpost⟩ := ieFormat.fits_cons.mp hrest
      have hpre_v := not_isVendor_of_noHits houi hno
      have hmem : e ∈ pre ++ e :: post := List.mem_append_right _ List.mem_cons_self
      have hattrs' : HasAttrs oui o post := fun x hx =>
        hattrs x (List.mem_append_right _ (List.mem_cons_of_mem _ hx))
      -- what becomes of the element that was found
      obtain ⟨e', pad, hone, he', hdel, hpad⟩ : ∃ e' pad,
          (∀ post', DelAttrs oui o attr_id post post' → DelAttrs oui o attr_id (e :: post)
            (e' :: post'))
          ∧ e'.body.length ≤ 255
          ∧ delAttrLoop oui o n attr_id n (ieFormat.enc e ++ (ieFormat.encode post ++ tail))
              (ieFormat.enc e).length
            = some (ieFormat.enc e' ++ (pad ++ (ieFormat.encode post ++ tail)),
              (ieFormat.enc e').length)
          ∧ (ieFormat.enc e).length = (ieFormat.enc e').length + pad.length := by
        by_cases hv : IsVendor oui e
        · obtain ⟨as, rfl⟩ := hattrs e hmem hv
          have has := length_le_of_attrIe houi he
          obtain ⟨pad, hdel, hpad⟩ := delAttrLoop_attrIe attr_id houi he
            (show as.length < n by omega) (show as.length < n by omega)
              (ieFormat.encode post ++ tail)
          refine ⟨_, pad, fun post' h => .vendor h, ?_, hdel, hpad⟩
          rw [Format.length_enc, Format.length_enc] at hpad
          change _ ≤ 255 at he
          omega
        · have hshort := hhit.short hv
          obtain ⟨n, rfl⟩ := Nat.exists_eq_succ_of_ne_zero (Nat.ne_zero_of_lt hn)
          refine ⟨e, [], fun post' h => .other hv h, he, ?_, rfl⟩
          refine delAttrLoop_short ?_ _
          rw [Format.length_enc]
          change 2 + _ ≤ 6
          omega
      have hstep := bssExDelAttrLoop_of_first houi (k := k) hfits (by omega)
        (by omega) hno hhit hb hlen
        (by omega) hdel hpad
      have hsplit : (ieFormat.encode (pre ++ e :: post)).length = (ieFormat.encode pre).length
          + ((ieFormat.enc e).length + (ieFormat.encode post).length) := by
        rw [Format.encode_append, Format.encode_cons, List.length_append, List.length_append]
      have hfin : (fin ++ (ieFormat.encode pre ++ ieFormat.enc e')).length
          = fin.length + ((ieFormat.encode pre).length + (ieFormat.enc e').length) := by
        rw [List.length_append, List.length_append]
      rw [List.length_append, List.length_cons] at hk
      have hnew : b.ieLength - pad.length
          = (fin ++ (ieFormat.encode pre ++ ieFormat.enc e')).length +
            (ieFormat.encode post).length := by
        rw [hfin]
        omega
      obtain ⟨post', tail', hdels, hfits', hlen', hloop⟩ := ih
        (b := { b with
          ies := (fin ++ (ieFormat.encode pre ++ ieFormat.enc e'))
            ++ (ieFormat.encode post ++ (List.replicate pad.length 0 ++ tail))
          ieLength := b.ieLength - pad.length })
        hpost hattrs' (by rw [hfin]; omega) (by omega) rfl hnew
      have hjoin : (fin ++ (ieFormat.encode pre ++ ieFormat.enc e')) ++
        (ieFormat.encode post' ++ tail')
          = fin ++ (ieFormat.encode (pre ++ e' :: post') ++ tail') := by
        rw [Format.encode_append, Format.encode_cons]
        simp only [List.append_assoc]
      have hjoin_len : (fin ++ (ieFormat.encode pre ++ ieFormat.enc e')).length
          + (ieFormat.encode post').length
          = fin.length + (ieFormat.encode (pre ++ e' :: post')).length := by
        rw [hfin, Format.encode_append, Format.encode_cons, List.length_append, List.length_append]
        omega
      refine ⟨pre ++ e' :: post', tail', .append hpre_v (hone _ hdels), ?_, ?_, ?_⟩
      · exact List.forall_mem_append.mpr ⟨hpre, ieFormat.fits_cons.mpr ⟨he', hfits'⟩⟩
      · rw [← hjoin, hlen', hb]
        simp only [List.length_append, List.length_replicate, hsplit]
        omega
      · rw [hstep, hloop, hjoin, hjoin_len]

end BssDelAttr

/-! ## BSS descriptions -/

section Bss

variable {oui : List Byte} {o : Order} {b : BssEx} {fixed : List Byte} {es : List Ie}

theorem delIeLoop_lt {m n ies_len ies_len' : ℕ} {ies ies' : List Byte} (hlt : ies_len < 2 ^ 32)
    (h : delIeLoop oui m n ies ies_len = some (ies', ies_len')) : ies_len' < 2 ^ 32 := by
  induction n generalizing ies ies_len with
  | zero => cases h
  | succ n ih =>
    rw [delIeLoop] at h
    obtain ⟨r, -, h⟩ := Option.bind_eq_some_iff.mp h
    cases r with
    | none =>
      cases h
      exact hlt
    | some f =>
      by_cases hz : f.len = 0
      · simp only [if_pos hz] at h
        cases h
        exact hlt
      · simp only [if_neg hz] at h
        obtain ⟨_, -, h⟩ := Option.bind_eq_some_iff.mp h
        exact ih (Nat.mod_lt _ (by decide)) h

/-- What the description says about the memory and the length of its elements. -/
theorem BssEx.Holds.tlv (hb : b.Holds fixed es) :
    ∃ tail, b.ies.take b.fixedIeOffset = fixed
      ∧ b.ies.drop b.fixedIeOffset = ieFormat.encode es ++ tail
      ∧ b.tlvIesLen = (ieFormat.encode es).length
      ∧ fixed.length + (ieFormat.encode es).length + tail.length = maxIeSz := by
  obtain ⟨tail, hies⟩ := hb.ies_eq
  have hlen := congrArg List.length hies
  rw [hb.length_ies, List.length_append, List.length_append] at hlen
  have h768 : maxIeSz = 768 := rfl
  refine ⟨tail, ?_, ?_, ?_, by omega⟩
  · rw [hies, ← hb.length_fixed, List.take_left]
  · rw [hies, ← hb.length_fixed, List.drop_left]
  · rw [BssEx.tlvIesLen, hb.ieLength_eq, ← hb.length_fixed, usub_eq (by omega) (by omega)]
    omega

theorem fits_others (h : ieFormat.Fits es) : ieFormat.Fits (others oui es) :=
  fun e he => h e (List.mem_filter.mp he).1

theorem length_encode_others (oui : List Byte) (es : List Ie) :
    (ieFormat.encode (others oui es)).length ≤ (ieFormat.encode es).length := by
  induction es with
  | nil => exact Nat.le_refl _
  | cons e es ih =>
    by_cases hv : IsVendor oui e
    · have heq : others oui (e :: es) = others oui es := by simp [others, hv]
      rw [heq, Format.encode_cons, List.length_append]
      omega
    · have heq : others oui (e :: es) = e :: others oui es := by simp [others, hv]
      rw [heq, Format.encode_cons, Format.encode_cons, List.length_append, List.length_append]
      omega

/-- The elements with the OUI are cut out if and only if the others are clear among themselves. -/
theorem bssExDelIe_iff (hw : IsWfa oui) (hb : b.Holds fixed es) :
    (∃ n b', bssExDelIe oui n b = some b' ∧ b'.Holds fixed (others oui es))
      ↔ Clear oui (others oui es) := by
  obtain ⟨tail, htake, hdrop, htlv, hsize⟩ := hb.tlv
  have h768 : maxIeSz = 768 := rfl
  have hle := length_encode_others oui es
  have hcount := ieFormat.length_le_length_encode (Nat.succ_pos 1) es
  constructor
  · rintro ⟨n, b', hdel, hb'⟩
    rw [bssExDelIe, hdrop, htlv, htake] at hdel
    obtain ⟨⟨ies', len'⟩, hloop, rfl⟩ := Option.map_eq_some_iff.mp hdel
    obtain ⟨tail', hies⟩ := hb'.ies_eq
    have hlt := delIeLoop_lt (by omega) hloop
    have hlen : usub b.ieLength (usub (ieFormat.encode es).length len')
        = fixed.length + (ieFormat.encode (others oui es)).length := hb'.ieLength_eq
    obtain rfl : ies' = ieFormat.encode (others oui es) ++ tail' := List.append_cancel_left hies
    obtain rfl : len' = (ieFormat.encode (others oui es)).length := by
      rw [hb.ieLength_eq, usub, usub] at hlen
      omega
    exact clear_of_delIeLoop hw.length (fits_others hb.fits) (by omega) hloop
  · intro hclear
    obtain ⟨tail', hloop, hmem⟩ := delIeLoop_of_clear hw hb.fits (m := 769) (n := 769) (by omega)
      (by omega) hclear (by omega) tail
    refine ⟨769, ⟨fixed ++ (ieFormat.encode (others oui es) ++ tail'),
      usub b.ieLength (usub (ieFormat.encode es).length (ieFormat.encode (others oui es)).length),
      b.probReq⟩, ?_, ?_⟩
    · rw [bssExDelIe, hdrop, htlv, htake, hloop]
      rfl
    · refine ⟨fits_others hb.fits, hb.length_fixed, ?_, ?_, tail', rfl⟩
      · rw [List.length_append, hmem, List.length_append]
        omega
      · change usub _ _ = _
        rw [hb.ieLength_eq, usub_eq hle (by omega), usub_eq (by omega) (by omega)]
        omega

/-- The attributes with an identifier are cut out of all elements with the OUI. -/
theorem bssExDelAttr_spec (hw : IsWfa oui) (hb : b.Holds fixed es) (hattrs : HasAttrs oui o es)
    (attr_id : Byte) :
    ∃ es', DelAttrs oui o attr_id es es'
      ∧ ∃ n b', bssExDelAttr oui o n attr_id b = some b' ∧ b'.Holds fixed es' := by
  obtain ⟨tail, -, -, htlv, hsize⟩ := hb.tlv
  obtain ⟨tail, hies⟩ := hb.ies_eq
  have h768 : maxIeSz = 768 := rfl
  have hcount := ieFormat.length_le_length_encode (Nat.succ_pos 1) es
  have hn : 768 < 769 := by decide
  obtain ⟨es', tail', hdel, hfits, hlen, hloop⟩ := bssExDelAttrLoop_spec attr_id hw hn
    hb.fits hattrs (k := 769) (by omega) (by omega) hies hb.ieLength_eq
  refine ⟨es', hdel, 769, ⟨fixed ++ (ieFormat.encode es' ++ tail'),
    fixed.length + (ieFormat.encode es').length, b.probReq⟩, ?_, hfits, hb.length_fixed, ?_, rfl,
      tail',
    rfl⟩
  · rw [bssExDelAttr, htlv, ← hb.length_fixed, hloop]
  · exact hlen.trans hb.length_ies

/-- `rtw_bss_ex_del_p2p_ie` and `rtw_bss_ex_del_wfd_ie` leave exactly the elements without the OUI
if and only if none of those is, read with the bytes behind it, taken for one with the OUI; the
attributes are always deleted as they should be. -/
theorem bssExDel_iff (b : BssEx) (fixed : List Byte) (es : List Ie) (hb : b.Holds fixed es)
    (hp2p : HasAttrs p2pOui .le es) (hwfd : HasAttrs wfdOui .be es) :
    ((∃ n b', rtwBssExDelP2pIe n b = some b' ∧ b'.Holds fixed (others p2pOui es))
      ↔ Clear p2pOui (others p2pOui es))
    ∧ ((∃ n b', rtwBssExDelWfdIe n b = some b' ∧ b'.Holds fixed (others wfdOui es))
      ↔ Clear wfdOui (others wfdOui es))
    ∧ (∀ attr_id, ∃ es', DelAttrs p2pOui .le attr_id es es'
      ∧ ∃ n b', rtwBssExDelP2pAttr n b attr_id = some b' ∧ b'.Holds fixed es')
    ∧ ∀ attr_id, ∃ es', DelAttrs wfdOui .be attr_id es es'
      ∧ ∃ n b', rtwBssExDelWfdAttr n b attr_id = some b' ∧ b'.Holds fixed es' :=
  ⟨bssExDelIe_iff isWfa_p2pOui hb, bssExDelIe_iff isWfa_wfdOui hb,
    bssExDelAttr_spec isWfa_p2pOui hb hp2p, bssExDelAttr_spec isWfa_wfdOui hb hwfd⟩

/-- A description from a probe request that holds the elements `es`, and nothing behind them. -/
def bssOf (es : List Ie) : BssEx :=
  ⟨ieFormat.encode es ++ List.replicate (768 - (ieFormat.encode es).length) 0,
    (ieFormat.encode es).length, true⟩

theorem holds_bssOf (hfits : ieFormat.Fits es) (hmax : (ieFormat.encode es).length ≤ 768) :
    (bssOf es).Holds [] es where
  fits := hfits
  length_fixed := rfl
  length_ies := by
    rw [bssOf, List.length_append, List.length_replicate]
    exact Nat.add_sub_cancel' hmax
  ieLength_eq := (Nat.zero_add _).symm
  ies_eq := ⟨_, rfl⟩

/-- An SSID, and a P2P element with one attribute. -/
def p2pIes : List Ie := [⟨0, [65]⟩, attrIe p2pOui .le [⟨2, [1]⟩]]

theorem bssExDel_p2pIes :
    (∃ n b', rtwBssExDelP2pIe n (bssOf p2pIes) = some b' ∧ b'.Holds [] [⟨0, [65]⟩])
      ∧ ∃ es', DelAttrs p2pOui .le 2 p2pIes es'
        ∧ ∃ n b', rtwBssExDelP2pAttr n (bssOf p2pIes) 2 = some b' ∧ b'.Holds [] es' := by
  have hfits : ieFormat.Fits p2pIes := by unfold Format.Fits; decide
  have hp2p : HasAttrs p2pOui .le p2pIes := by
    intro e he hv
    simp only [p2pIes, List.mem_cons, List.not_mem_nil, or_false] at he
    rcases he with rfl | rfl
    · exact absurd hv (by decide)
    · exact ⟨_, rfl⟩
  have hwfd : HasAttrs wfdOui .be p2pIes := by
    intro e he hv
    simp only [p2pIes, List.mem_cons, List.not_mem_nil, or_false] at he
    rcases he with rfl | rfl
    · exact absurd hv (by decide)
    · exact absurd hv (by decide)
  have hall := bssExDel_iff (bssOf p2pIes) [] p2pIes (holds_bssOf hfits (by decide)) hp2p hwfd
  refine ⟨hall.1.mpr ?_, hall.2.2.1 2⟩
  exact noHits_iff.mp ⟨by decide, trivial⟩

/-- A vendor element with the three bytes of the OUI, and an element with identifier 9. -/
def shortIes : List Ie := [⟨vendorSpecificIe, [0x50, 0x6F, 0x9A]⟩, ⟨9, [1]⟩]

/-- There is no P2P element, but the first one is deleted. -/
theorem shortIes_not_kept :
    ¬ ∃ n b', rtwBssExDelP2pIe n (bssOf shortIes) = some b'
      ∧ b'.Holds [] (others p2pOui shortIes) := by
  have hfits : ieFormat.Fits shortIes := by unfold Format.Fits; decide
  rintro ⟨n, b', hdel, hb'⟩
  have hclear := (bssExDelIe_iff isWfa_p2pOui (holds_bssOf hfits (by decide))).mp ⟨n, b', hdel, hb'⟩
  exact hclear [] ⟨vendorSpecificIe, [0x50, 0x6F, 0x9A]⟩ [⟨9, [1]⟩] (by decide) (by decide)

end Bss

end Rtl88x2cu.Ieee80211.DelIe
