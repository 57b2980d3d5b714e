import Rtl88x2cu.Ieee80211.VendorSearch

/-!
# Elements up to where they are cut off

Any bytes are whole elements and a rest that no whole element is at the beginning of (`elems` and
`cutOff`). A search goes from element to element and stops at the first one that passes a test. The
test sees the bytes from the element on, those of the elements behind it included.

* `encode_elems_append` and `elems_unique`: the division exists and is unique.
* `scanIes` is a search, with what it does behind the last element as a parameter.
* `firstIe` is what it should find.
-/

namespace Rtl88x2cu.Ieee80211

open Bytes Tlv
open VendorIe (ieLen)

/-! ## Whole elements -/

/-- The whole elements at the beginning of the bytes, and the rest; the bytes are no more than the
first argument. -/
def parseIes : ℕ → List Byte → List Ie × List Byte
  | n + 1, id :: len :: rest =>
    if len.toNat ≤ rest.length then
      (⟨id, rest.take len.toNat⟩ :: (parseIes n (rest.drop len.toNat)).1,
        (parseIes n (rest.drop len.toNat)).2)
    else ([], id :: len :: rest)
  | _, bs => ([], bs)

/-- The whole elements. -/
def elems (bs : List Byte) : List Ie := (parseIes bs.length bs).1

/-- What is behind the whole elements. -/
def cutOff (bs : List Byte) : List Byte := (parseIes bs.length bs).2

/-- No whole element is at the beginning. -/
def Cut (rem : List Byte) : Prop :=
  ∀ id len rest, rem = id :: len :: rest → rest.length < len.toNat

theorem cut_nil : Cut [] := fun _ _ _ h => by cases h

theorem parseIes_spec (n : ℕ) (bs : List Byte) (h : bs.length ≤ n) :
    ieFormat.Fits (parseIes n bs).1 ∧ Cut (parseIes n bs).2 ∧
      ieFormat.encode (parseIes n bs).1 ++ (parseIes n bs).2 = bs := by
  have hnil : ∀ {bs}, Cut bs → ieFormat.Fits [] ∧ Cut bs ∧ ieFormat.encode [] ++ bs = bs :=
    fun hcut => ⟨fun _ he => (nomatch he), hcut, rfl⟩
  induction n, bs using parseIes.induct with
  | case1 n id len rest hle ih =>
    rw [List.length_cons, List.length_cons] at h
    obtain ⟨hfits, hcut, heq⟩ := ih (by rw [List.length_drop]; omega)
    have hbody : (rest.take len.toNat).length = len.toNat := List.length_take_of_le hle
    rw [parseIes, if_pos hle]
    refine ⟨ieFormat.fits_cons.mpr ⟨?_, hfits⟩, hcut, ?_⟩
    · rw [hbody]
      exact Nat.le_of_lt_succ len.isLt
    · rw [Format.encode_cons, Format.enc, hbody, List.append_assoc, List.append_assoc, heq,
        List.take_append_drop]
      simp [ieFormat]
  | case2 n id len rest hle =>
    rw [parseIes, if_neg hle]
    refine hnil fun id' len' rest' heq => ?_
    cases heq
    exact Nat.not_le.mp hle
  | case3 n bs hshort =>
    have hparse : parseIes n bs = ([], bs) := by
      unfold parseIes
      split
      · exact (hshort _ _ _ _ rfl rfl).elim
      · rfl
    rw [hparse]
    refine hnil fun id len rest heq => ?_
    subst heq
    cases n with
    | zero => exact absurd h (Nat.not_succ_le_zero _)
    | succ n => exact (hshort n id len rest rfl rfl).elim

variable (bs : List Byte)

theorem fits_elems : ieFormat.Fits (elems bs) := (parseIes_spec _ bs (Nat.le_refl _)).1

theorem cut_cutOff : Cut (cutOff bs) := (parseIes_spec _ bs (Nat.le_refl _)).2.1

/-- Any bytes are whole elements and a rest. -/
theorem encode_elems_append : ieFormat.encode (elems bs) ++ cutOff bs = bs :=
  (parseIes_spec _ bs (Nat.le_refl _)).2.2

variable {bs} {es es' : List Ie} {rem rem' : List Byte}

/-- A whole element is not cut off. -/
theorem not_cut_enc {e : Ie} (he : e.body.length ≤ 255) (rest : List Byte) :
    ¬ Cut (ieFormat.enc e ++ rest) := fun hcut => by
  have hlt := hcut e.id (BitVec.ofNat 8 e.body.length) (e.body ++ rest) rfl
  rw [toNat_length he, List.length_append] at hlt
  omega

/-- There is no other division. -/
theorem elems_unique (hfits : ieFormat.Fits es) (hcut : Cut rem) (hfits' : ieFormat.Fits es')
    (hcut' : Cut rem') (h : ieFormat.encode es ++ rem = ieFormat.encode es' ++ rem') :
    es = es' ∧ rem = rem' := by
  induction es generalizing es' with
  | nil =>
    cases es' with
    | nil => exact ⟨rfl, h⟩
    | cons e' es' =>
      obtain ⟨he', -⟩ := ieFormat.fits_cons.mp hfits'
      rw [Format.encode_nil, List.nil_append, Format.encode_cons, List.append_assoc] at h
      exact (not_cut_enc he' _ (h ▸ hcut)).elim
  | cons e es ih =>
    obtain ⟨he, hfits⟩ := ieFormat.fits_cons.mp hfits
    cases es' with
    | nil =>
      rw [Format.encode_nil, List.nil_append, Format.encode_cons, List.append_assoc] at h
      exact (not_cut_enc he _ (h ▸ hcut')).elim
    | cons e' es' =>
      obtain ⟨he', hfits'⟩ := ieFormat.fits_cons.mp hfits'
      obtain ⟨hid, hlen, hrest⟩ : e.id = e'.id ∧
          BitVec.ofNat 8 e.body.length = BitVec.ofNat 8 e'.body.length ∧
          e.body ++ (ieFormat.encode es ++ rem) = e'.body ++ (ieFormat.encode es' ++ rem') := by
        simpa [Format.enc, ieFormat] using h
      have hlen' := congrArg BitVec.toNat hlen
      rw [toNat_length he, toNat_length he'] at hlen'
      obtain ⟨hbody, hrest⟩ := List.append_inj hrest hlen'
      obtain ⟨rfl, rfl⟩ := ih hfits hfits' hrest
      obtain ⟨id, body⟩ := e
      obtain ⟨id', body'⟩ := e'
      obtain rfl : id = id' := hid
      obtain rfl : body = body' := hbody
      exact ⟨rfl, rfl⟩

/-- A sequence of elements has nothing behind them. -/
theorem elems_encode (hfits : ieFormat.Fits es) :
    elems (ieFormat.encode es) = es ∧ cutOff (ieFormat.encode es) = [] := by
  apply elems_unique (fits_elems _) (cut_cutOff _) hfits cut_nil
  rw [encode_elems_append, List.append_nil]

/-- What its length byte says does not fit into what is cut off. -/
theorem Cut.length_lt (hcut : Cut rem) (hrem : rem ≠ []) (tail : List Byte) {len : Byte}
    (hlen : (rem ++ tail)[1]? = some len) : rem.length < len.toNat + 2 := by
  rcases rem with _ | ⟨id, _ | ⟨len', rest⟩⟩
  case nil => exact (hrem rfl).elim
  case cons.nil =>
    rw [List.length_singleton]
    omega
  case cons.cons =>
    obtain rfl : len' = len := Option.some.inj hlen
    have hlt := hcut id len' rest rfl
    rw [List.length_cons, List.length_cons]
    omega

/-! ## Searches -/

/-- The position of the first element with a property, from `off` on. -/
def firstIe (p : Ie → Prop) [DecidablePred p] : List Ie → ℕ → Option ℕ
  | [], _ => none
  | e :: es, off => if p e then some off else firstIe p es (off + (ieFormat.enc e).length)

/-- The end of a search, where `rem` is cut off and `tail` is what is in the buffer behind it. -/
def scanCut (test : List Byte → Option Bool) (rem tail : List Byte) (off : ℕ) :
    Option (Option ℕ) :=
  if rem = [] then some none
  else (test (rem ++ tail)).bind fun hit =>
    if hit then some (some off) else (rem ++ tail)[1]?.map fun _ => none

/-- A search: the position of the first element that passes the test. -/
def scanIes (test : List Byte → Option Bool) (rem tail : List Byte) :
    List Ie → ℕ → Option (Option ℕ)
  | [], off => scanCut test rem tail off
  | e :: es, off =>
    (test (ieFormat.encode (e :: es) ++ (rem ++ tail))).bind fun hit =>
      if hit then some (some off)
      else scanIes test rem tail es (off + (ieFormat.enc e).length)

variable {test : List Byte → Option Bool} {tail : List Byte}

theorem scanIes_add (es : List Ie) (off k : ℕ) :
    scanIes test rem tail es (off + k) =
      (scanIes test rem tail es off).map (Option.map (· + k)) := by
  induction es generalizing off with
  | nil =>
    rw [scanIes, scanIes, scanCut, scanCut]
    split
    · rfl
    · rcases test (rem ++ tail) with _ | _ | _
      case some.false => rcases (rem ++ tail)[1]? with _ | _ <;> rfl
      all_goals rfl
  | cons e es ih =>
    rw [scanIes, scanIes]
    rcases test (ieFormat.encode (e :: es) ++ (rem ++ tail)) with _ | _ | _
    case some.false =>
      change scanIes test rem tail es (off + k + _) = _
      rw [Nat.add_right_comm, ih]
      rfl
    all_goals rfl

/-- A search from element to element, with some fuel, is a scan: it is enough to look at one step
and at the end. -/
theorem scan_eq {ρ : Type*} {F : ℕ → ℕ → Option ρ} {result : Option ℕ → Option ρ} {k : ℕ}
    {buf : List Byte}
    (hstep : ∀ a e es n, buf = a ++ (ieFormat.encode (e :: es) ++ (rem ++ tail)) →
      ieFormat.Fits (e :: es) →
      F (n + 1) a.length = (test (ieFormat.encode (e :: es) ++ (rem ++ tail))).bind fun hit =>
        if hit then result (some a.length) else F n (a.length + (ieFormat.enc e).length))
    (hend : ∀ a n, buf = a ++ (rem ++ tail) → k ≤ n →
      F n a.length = (scanCut test rem tail a.length).bind result)
    {a : List Byte} (hbuf : buf = a ++ (ieFormat.encode es ++ (rem ++ tail)))
    (hfits : ieFormat.Fits es) {n : ℕ} (hn : es.length + k ≤ n) :
    F n a.length = (scanIes test rem tail es a.length).bind result := by
  induction es generalizing a n with
  | nil => exact hend a n hbuf (by rwa [List.length_nil, Nat.zero_add] at hn)
  | cons e es ih =>
    rw [List.length_cons] at hn
    obtain ⟨n, rfl⟩ := Nat.exists_eq_add_of_le' (show 1 ≤ n by omega)
    have hnext : buf = (a ++ ieFormat.enc e) ++ (ieFormat.encode es ++ (rem ++ tail)) := by
      rw [hbuf, Format.encode_cons, List.append_assoc, List.append_assoc]
    have hrest := ih hnext (ieFormat.fits_cons.mp hfits).2 (n := n) (by omega)
    rw [hstep a e es n hbuf hfits, scanIes]
    rcases test (ieFormat.encode (e :: es) ++ (rem ++ tail)) with _ | _ | _
    case some.false =>
      rw [List.length_append] at hrest
      exact hrest
    all_goals rfl

/-- Where the test tells the elements with a property, the first of them is found. -/
theorem scanIes_eq_firstIe {p : Ie → Prop} [DecidablePred p]
    (htest : ∀ e es, test (ieFormat.encode (e :: es) ++ tail) = some (decide (p e))) (es : List Ie)
    (off : ℕ) : scanIes test [] tail es off = some (firstIe p es off) := by
  induction es generalizing off with
  | nil => rfl
  | cons e es ih =>
    rw [scanIes, List.nil_append, htest, firstIe, Option.bind_some, ih]
    by_cases hp : p e
    · rw [if_pos hp, decide_eq_true hp, if_pos rfl]
    · rw [if_neg hp, decide_eq_false hp, if_neg Bool.false_ne_true]

/-! ## Safe searches -/

/-- The search stops at a whole element, or comes to the end: at what is cut off the test does not
fail, the element does not pass it, and has a length byte. -/
def SearchCond (test : List Byte → Option Bool) (rem tail : List Byte) : List Ie → Prop
  | [] => rem = [] ∨ test (rem ++ tail) = some false ∧ 2 ≤ (rem ++ tail).length
  | e :: es =>
    test (ieFormat.encode (e :: es) ++ (rem ++ tail)) = some true ∨
      test (ieFormat.encode (e :: es) ++ (rem ++ tail)) = some false ∧ SearchCond test rem tail es

instance SearchCond.decidable (test : List Byte → Option Bool) (rem tail : List Byte) :
    (es : List Ie) → Decidable (SearchCond test rem tail es)
  | [] => inferInstanceAs (Decidable (_ ∨ _))
  | _ :: es =>
    have := SearchCond.decidable test rem tail es
    inferInstanceAs (Decidable (_ ∨ _))

/-- The first element that passes the test has the property. -/
def FirstRight (test : List Byte → Option Bool) (p : Ie → Prop) (tail : List Byte) :
    List Ie → Prop
  | [] => True
  | e :: es =>
    test (ieFormat.encode (e :: es) ++ tail) = some true ∧ p e ∨
      test (ieFormat.encode (e :: es) ++ tail) = some false ∧ FirstRight test p tail es

instance FirstRight.decidable (test : List Byte → Option Bool) (p : Ie → Prop) [DecidablePred p]
    (tail : List Byte) : (es : List Ie) → Decidable (FirstRight test p tail es)
  | [] => .isTrue trivial
  | _ :: es =>
    have := FirstRight.decidable test p tail es
    inferInstanceAs (Decidable (_ ∨ _))

theorem ieLen_append (a t : List Byte) : ieLen (a ++ t) a.length = (t.getD 1 0).toNat + 2 := by
  rw [ieLen, List.getD_eq_getElem?_getD, List.getD_eq_getElem?_getD, read_append]

theorem ieLen_enc {e : Ie} (he : e.body.length ≤ 255) (a rest : List Byte) :
    ieLen (a ++ (ieFormat.enc e ++ rest)) a.length = (ieFormat.enc e).length := by
  have hread : (ieFormat.enc e ++ rest).getD 1 0 = BitVec.ofNat 8 e.body.length := rfl
  rw [ieLen_append, hread, toNat_length he, Format.length_enc, Nat.add_comm]
  rfl

/-- A search is safe if and only if it stops at a whole element or comes to the end. -/
theorem scanIes_safe_iff (test : List Byte → Option Bool) (hcut : Cut rem) {buf a : List Byte}
    (hbuf : buf = a ++ (ieFormat.encode es ++ rem)) (hfits : ieFormat.Fits es) :
    (∃ r, scanIes test rem [] es a.length = some r ∧
        ∀ p, r = some p → p + ieLen buf p ≤ buf.length) ↔ SearchCond test rem [] es := by
  induction es generalizing a with
  | nil =>
    rw [Format.encode_nil, List.nil_append] at hbuf
    rw [scanIes, scanCut, SearchCond, List.append_nil]
    by_cases hrem : rem = []
    · rw [if_pos hrem]
      exact iff_of_true ⟨none, rfl, fun p hp => by cases hp⟩ (.inl hrem)
    · rw [if_neg hrem, or_iff_right hrem]
      rcases test rem with _ | _ | _
      case none => exact iff_of_false (fun ⟨_, h, _⟩ => by cases h) fun ⟨h, _⟩ => by cases h
      case some.false =>
        have hread : 2 ≤ rem.length ↔ ∃ len, rem[1]? = some len :=
          ⟨fun h => ⟨_, List.getElem?_eq_getElem h⟩, fun ⟨_, h⟩ => (List.getElem?_eq_some_iff.mp h).1⟩
        rw [and_iff_right rfl, hread, Option.bind_some, if_neg Bool.false_ne_true]
        constructor
        · rintro ⟨r, h, -⟩
          obtain ⟨len, hlen, -⟩ := Option.map_eq_some_iff.mp h
          exact ⟨len, hlen⟩
        · rintro ⟨len, hlen⟩
          exact ⟨none, by rw [hlen]; rfl, fun p hp => by cases hp⟩
      case some.true =>
        -- what is cut off does not lie inside
        refine iff_of_false ?_ fun ⟨h, _⟩ => by cases h
        rintro ⟨r, h, hin⟩
        cases h
        have hle := hin a.length rfl
        rw [hbuf, ieLen_append, List.length_append] at hle
        rcases hl : rem[1]? with _ | len
        · have hlen := List.getElem?_eq_none_iff.mp hl
          rw [List.getD_eq_getElem?_getD, hl] at hle
          change _ + (0 + 2) ≤ _ at hle
          omega
        · have hlt := hcut.length_lt hrem [] (by rwa [List.append_nil])
          rw [List.getD_eq_getElem?_getD, hl, Option.getD_some] at hle
          omega
  | cons e es ih =>
    obtain ⟨he, hfits⟩ := ieFormat.fits_cons.mp hfits
    rw [Format.encode_cons, List.append_assoc] at hbuf
    rw [scanIes, SearchCond]
    rcases test (ieFormat.encode (e :: es) ++ (rem ++ [])) with _ | _ | _
    case none => exact iff_of_false (fun ⟨_, h, _⟩ => by cases h) fun h => by simp at h
    case some.false =>
      rw [Option.bind_some, if_neg Bool.false_ne_true, ← List.length_append,
        ih (by rw [hbuf, List.append_assoc]) hfits]
      simp
    case some.true =>
      refine iff_of_true ⟨_, rfl, fun p hp => ?_⟩ (.inl rfl)
      cases hp
      rw [hbuf, ieLen_enc he, List.length_append, List.length_append]
      omega

theorem le_firstIe {p : Ie → Prop} [DecidablePred p] {es : List Ie} {off q : ℕ}
    (h : firstIe p es off = some q) : off ≤ q := by
  induction es generalizing off with
  | nil => cases h
  | cons e es ih =>
    rw [firstIe] at h
    split at h
    · exact Nat.le_of_eq (Option.some.inj h)
    · exact Nat.le_trans (Nat.le_add_right _ _) (ih h)

/-- In a sequence, the right element is found if and only if the first one that passes the test is
right. -/
theorem scanIes_eq_firstIe_iff {p : Ie → Prop} [DecidablePred p]
    (htest : ∀ e es, p e → test (ieFormat.encode (e :: es) ++ tail) = some true) (es : List Ie)
    (off : ℕ) :
    scanIes test [] tail es off = some (firstIe p es off) ↔ FirstRight test p tail es := by
  induction es generalizing off with
  | nil => exact iff_of_true rfl trivial
  | cons e es ih =>
    have hp := htest e es
    rw [scanIes, List.nil_append, firstIe, FirstRight]
    generalize test (ieFormat.encode (e :: es) ++ tail) = hit at hp
    rcases hit with _ | _ | _
    case none => simp
    case some.false =>
      have hnot : ¬ p e := fun h => by cases hp h
      rw [if_neg hnot, Option.bind_some, if_neg Bool.false_ne_true, ih]
      simp
    case some.true =>
      rw [Option.bind_some, if_pos rfl]
      by_cases h : p e
      · simp [h]
      · refine iff_of_false (fun heq => ?_) fun hright => by simp [h] at hright
        rw [if_neg h] at heq
        have hle := le_firstIe (Option.some.inj heq).symm
        rw [Format.length_enc] at hle
        change off + (2 + _) ≤ off at hle
        omega

end Rtl88x2cu.Ieee80211
