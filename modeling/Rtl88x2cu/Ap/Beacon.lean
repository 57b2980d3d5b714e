import Rtl88x2cu.Ap.Tim
import Rtl88x2cu.Ieee80211.GetIe

/-!
# The elements of a beacon

`rtw_add_bcn_ie`, `rtw_remove_bcn_ie`, `rtw_remove_bcn_ie_ex` and `update_BCNTIM` (`core/rtw_ap.c`)
edit the buffer that beacons are made from: they save what is behind the place of the edit, write
there, and copy the saved bytes back. None of them checks that the result fits into the buffer. The
results of `rtw_malloc` are not `NULL`.

The buffer is a fixed part and a sequence of elements. `bcnSpec` says what an edit does to the
sequence, and `run_bcn_refines` that the buffer follows it over all edits that meet `BcnOk`.
-/

namespace Rtl88x2cu.Ap.Beacon

open Bytes Tlv Ieee80211 Ieee80211.ParseElems Ieee80211.GetIe Ap.Tim
open Ieee80211.DelIe (BssEx usub usub_eq)
open Ieee80211.VendorIe (Found maxIeSz)

/-! ## Model -/

/-- `_BEACON_IE_OFFSET_`, `_FIXED_IE_LENGTH_`, `sizeof(NDIS_802_11_FIXED_IEs)`. -/
def fixedIeLength : ℕ := 12

def ssidIeId : Byte := 0

def supportedRatesIeId : Byte := 1

/-- The end of every edit: `new` is written at `dst`, and the saved bytes `rem` behind the `ret`
bytes that it is said to have. -/
def splice (b : BssEx) (dst : ℕ) (new : List Byte) (ret : ℕ) (rem : List Byte) : Option BssEx := do
  let ies ← overwrite b.ies dst new
  let ies ← overwrite ies (dst + ret) rem
  some { b with ies := ies, ieLength := (dst + ret + rem.length) % 2 ^ 32 }

/-- `rtw_get_ie(pie + _FIXED_IE_LENGTH_, index, &ielen, IELength - _FIXED_IE_LENGTH_)`: the offset
in `IEs` and the length of the body. -/
def getBcnIe (n : ℕ) (b : BssEx) (index : Byte) : Option (Option (ℕ × ℕ)) :=
  (rtwGetIe n (b.ies.drop fixedIeLength) index.toNat 0
    (BitVec.ofNat 32 (usub b.ieLength fixedIeLength))).map fun r =>
      r.1.map fun p => (fixedIeLength + p, r.2.toNat)

/-- The bytes behind an element of `ielen` bytes at `ieOffset`. -/
def backupRemainder (b : BssEx) (ieOffset ielen : ℕ) : Option (List Byte) :=
  load b.ies (ieOffset + ielen) (usub (usub b.ieLength ieOffset) ielen)

/-- The search of `rtw_add_bcn_ie`: the last element it has looked at, and whether it is the one to
be replaced. -/
def addBcnIeLoop (b : BssEx) (index : Byte) :
    ℕ → ℕ → Option (ℕ × ℕ) → Option (Option (ℕ × ℕ) × Bool)
  | 0, _, _ => none
  | n + 1, i, p =>
    if i < b.ieLength then do
      let id ← b.ies[i]?
      if index < id then some (p, false)
      else do
        let len ← b.ies[i + 1]?
        if id = index then some (some (i, len.toNat), true)
        else addBcnIeLoop b index n ((i + (len.toNat + 2)) % 2 ^ 32) (some (i, len.toNat))
    else some (p, false)

/-- `rtw_add_bcn_ie`. -/
def rtwAddBcnIe (n : ℕ) (b : BssEx) (index : Byte) (data : List Byte) : Option BssEx := do
  match ← addBcnIeLoop b index n fixedIeLength none with
  | (none, _) => some b
  | (some (p, len), bmatch) =>
    if len = 0 then some b
    else
      let ielen := len + 2
      let rem ← backupRemainder b p ielen
      let dst := if bmatch then p else p + ielen
      splice b dst (index :: BitVec.ofNat 8 data.length :: data) (data.length + 2) rem

/-- `rtw_remove_bcn_ie`. -/
def rtwRemoveBcnIe (n : ℕ) (b : BssEx) (index : Byte) : Option BssEx := do
  match ← getBcnIe n b index with
  | none => some b
  | some (p, len) =>
    if len = 0 then some b
    else
      let rem ← backupRemainder b p (len + 2)
      splice b p [] 0 rem

/-- `rtw_remove_bcn_ie_ex`. -/
def rtwRemoveBcnIeEx (n : ℕ) (b : BssEx) (index : Byte) (indexEx : List Byte) : Option BssEx := do
  match ← rtwGetIeEx n (some (b.ies.drop fixedIeLength)) (usub b.ieLength fixedIeLength) index
    (some indexEx) false true with
  | none => some b
  | some f =>
    if f.len = 0 then some b
    else
      let p := fixedIeLength + f.ptr
      let rem ← backupRemainder b p f.len
      splice b p [] 0 rem

/-- `update_BCNTIM`, for the bitmap `tim_bitmap`. -/
def updateBcntim (n : ℕ) (b : BssEx) (timBitmap : List Byte) (aidBmpLen : ℕ) : Option BssEx := do
  let new := rtwSetTimIe 0 1 timBitmap aidBmpLen
  let tim ← getBcnIe n b timIeId
  match tim.filter fun t => t.2 > 0 with
  | some (p, len) =>
    let rem ← backupRemainder b p (len + 2)
    splice b p new.1 new.2 rem
  | none =>
    let ssid ← getBcnIe n b ssidIeId
    let rates ← getBcnIe n b supportedRatesIeId
    let offset := fixedIeLength + ssid.elim 0 (fun t => t.2 + 2) + rates.elim 0 (fun t => t.2 + 2)
    -- the DS parameter set
    let offset := offset + 3
    let rem ← backupRemainder b offset 0
    splice b offset new.1 new.2 rem

/-! ## Edits of sequences -/

/-- The first element with a larger identifier is behind the new one; an element with the same
identifier is replaced. -/
def putIe (new : Ie) : List Ie → List Ie
  | [] => [new]
  | e :: es =>
    if new.id < e.id then new :: e :: es
    else if e.id = new.id then new :: es
    else e :: putIe new es

/-- The element that `rtw_add_bcn_ie` looks at last is not empty; `prev` is for the one in front. -/
def addOk (index : Byte) : Bool → List Ie → Bool
  | prev, [] => prev
  | prev, e :: es =>
    if index < e.id then prev
    else if e.id = index then !e.body.isEmpty
    else addOk index (!e.body.isEmpty) es

/-- What `addBcnIeLoop` finds from the element at `off` on. -/
def addLast (index : Byte) : ℕ → Option (ℕ × ℕ) → List Ie → Option (ℕ × ℕ) × Bool
  | _, prev, [] => (prev, false)
  | off, prev, e :: es =>
    if index < e.id then (prev, false)
    else if e.id = index then (some (off, e.body.length), true)
    else addLast index (off + (ieFormat.enc e).length) (some (off, e.body.length)) es

/-- The first element with an identifier. -/
def findIe (index : Byte) (es : List Ie) : Option Ie := es.find? fun e => e.id = index

/-- The first element with the identifier of `new` is replaced. -/
def replaceIe (new : Ie) : List Ie → List Ie
  | [] => []
  | e :: es => if e.id = new.id then new :: es else e :: replaceIe new es

/-- An element is inserted behind `off` bytes. -/
def insertIe (new : Ie) : ℕ → List Ie → List Ie
  | _, [] => [new]
  | off, e :: es =>
    if off = 0 then new :: e :: es else e :: insertIe new (off - (ieFormat.enc e).length) es

/-- An element ends behind `off` bytes. -/
def Boundary : ℕ → List Ie → Prop
  | off, [] => off = 0
  | off, e :: es =>
    off = 0 ∨ (ieFormat.enc e).length ≤ off ∧ Boundary (off - (ieFormat.enc e).length) es

/-- Where `update_BCNTIM` inserts the element. -/
def timOffset (es : List Ie) : ℕ :=
  (findIe ssidIeId es).elim 0 (fun e => e.body.length + 2) +
    (findIe supportedRatesIeId es).elim 0 (fun e => e.body.length + 2) + 3

inductive BcnEdit where
  | add (index : Byte) (data : List Byte)
  | remove (index : Byte)
  | removeEx (index : Byte) (indexEx : List Byte)
  | tim (timBitmap : List Byte)
  deriving DecidableEq

/-- The identifier of the elements that an edit is about. -/
def BcnEdit.index : BcnEdit → Byte
  | .add index _ => index
  | .remove index => index
  | .removeEx index _ => index
  | .tim _ => timIeId

/-- What an edit does to the elements. -/
def bcnSpec (aidBmpLen : ℕ) (es : List Ie) : BcnEdit → List Ie
  | .add index data => if addOk index false es then putIe ⟨index, data⟩ es else es
  | .remove index =>
    if (findIe index es).any fun e => e.body ≠ [] then es.eraseP fun e => e.id = index else es
  | .removeEx index indexEx => es.eraseP fun e => IsIe index (some indexEx) e
  | .tim timBitmap =>
    let new : Ie := ⟨timIeId, timBody 0 1 timBitmap aidBmpLen⟩
    if (findIe timIeId es).isSome then replaceIe new es else insertIe new (timOffset es) es

/-- What an edit relies on: the result fits into the buffer; the elements that are compared with
`indexEx` are not shorter; and the element for the map, if it is missing, is inserted between two
elements. -/
def BcnOk (aidBmpLen : ℕ) (es : List Ie) (edit : BcnEdit) : Prop :=
  fixedIeLength + (ieFormat.encode (bcnSpec aidBmpLen es edit)).length ≤ maxIeSz ∧
    match edit with
    | .add _ data => data.length ≤ 255
    | .remove _ => True
    | .removeEx index indexEx => ∀ e ∈ es, e.id = index → indexEx.length ≤ e.body.length
    | .tim timBitmap => timBitmap.length = aidBmpLen ∧
        ((findIe timIeId es).elim (Boundary (timOffset es) es) fun e => e.body ≠ [])

/-- All edits have what they rely on. -/
def BcnRunOk (aidBmpLen : ℕ) : List Ie → List BcnEdit → Prop
  | _, [] => True
  | es, edit :: edits =>
    BcnOk aidBmpLen es edit ∧ BcnRunOk aidBmpLen (bcnSpec aidBmpLen es edit) edits

/-- An edit of the buffer. -/
def bcnStep (n aidBmpLen : ℕ) (b : BssEx) : BcnEdit → Option BssEx
  | .add index data => rtwAddBcnIe n b index data
  | .remove index => rtwRemoveBcnIe n b index
  | .removeEx index indexEx => rtwRemoveBcnIeEx n b index indexEx
  | .tim timBitmap => updateBcntim n b timBitmap aidBmpLen

/-! ## Sequences -/

section Sequences

variable {index : Byte} {new e : Ie} {es pre post : List Ie}

theorem findIe_eq_none_iff : findIe index es = none ↔ ∀ e ∈ es, e.id ≠ index := by
  rw [findIe, List.find?_eq_none]
  simp only [decide_eq_true_eq]

theorem findIe_append_cons (hpre : ∀ x ∈ pre, x.id ≠ index) (he : e.id = index) :
    findIe index (pre ++ e :: post) = some e := by
  have hnone : findIe index pre = none := findIe_eq_none_iff.mpr hpre
  rw [findIe, List.find?_append, ← findIe, hnone, Option.none_or, List.find?_cons_of_pos]
  exact decide_eq_true he

theorem findIe_cons_self (he : e.id = index) (es : List Ie) : findIe index (e :: es) = some e := by
  rw [findIe, List.find?_cons_of_pos]
  exact decide_eq_true he

theorem eraseP_append_cons {p : Ie → Prop} [DecidablePred p] (hpre : ∀ x ∈ pre, ¬ p x) (he : p e) :
    (pre ++ e :: post).eraseP (fun x => p x) = pre ++ post := by
  rw [List.eraseP_append_right _ (fun x hx => by simpa using hpre x hx), List.eraseP_cons_of_pos]
  exact decide_eq_true he

theorem replaceIe_append_cons (hpre : ∀ x ∈ pre, x.id ≠ new.id) (he : e.id = new.id) :
    replaceIe new (pre ++ e :: post) = pre ++ new :: post := by
  induction pre with
  | nil => rw [List.nil_append, replaceIe, if_pos he, List.nil_append]
  | cons x pre ih =>
    rw [List.forall_mem_cons] at hpre
    rw [List.cons_append, replaceIe, if_neg hpre.1, ih hpre.2, List.cons_append]

/-- Either there is no element in front of the new one, or it is put in the place of the last
element that is looked at, or behind it. -/
theorem addLast_cases (new : Ie) (es : List Ie) (off : ℕ) (prev : Option (ℕ × ℕ)) (prevOk : Bool) :
    (addLast new.id off prev es = (prev, false) ∧ addOk new.id prevOk es = prevOk ∧
        putIe new es = new :: es) ∨
      ∃ pre e post bmatch, es = pre ++ e :: post ∧
        addLast new.id off prev es =
          (some (off + (ieFormat.encode pre).length, e.body.length), bmatch) ∧
        addOk new.id prevOk es = !e.body.isEmpty ∧
        putIe new es = if bmatch then pre ++ new :: post else (pre ++ [e]) ++ new :: post := by
  induction es generalizing off prev prevOk with
  | nil => exact Or.inl ⟨rfl, rfl, rfl⟩
  | cons e es ih =>
    rw [addLast, addOk, putIe]
    by_cases hlt : new.id < e.id
    · rw [if_pos hlt, if_pos hlt, if_pos hlt]
      exact Or.inl ⟨rfl, rfl, rfl⟩
    · rw [if_neg hlt, if_neg hlt, if_neg hlt]
      by_cases heq : e.id = new.id
      · rw [if_pos heq, if_pos heq, if_pos heq]
        exact Or.inr ⟨[], e, es, true, rfl, rfl, rfl, rfl⟩
      · rw [if_neg heq, if_neg heq, if_neg heq]
        obtain ⟨hlast, hok, hput⟩ | ⟨pre, x, post, bmatch, rfl, hlast, hok, hput⟩ :=
          ih (off + (ieFormat.enc e).length) (some (off, e.body.length)) (!e.body.isEmpty)
        · exact Or.inr ⟨[], e, es, false, rfl, hlast, hok, by rw [hput]; rfl⟩
        · refine Or.inr ⟨e :: pre, x, post, bmatch, rfl, ?_, hok, ?_⟩
          · rw [hlast, Format.encode_cons, List.length_append, Nat.add_assoc]
          · rw [hput]
            cases bmatch with
            | false => rfl
            | true => rfl

/-- The first element with a property, or none. -/
theorem exists_first (p : Ie → Prop) [DecidablePred p] (es : List Ie) :
    (∀ e ∈ es, ¬ p e) ∨ ∃ pre e post, es = pre ++ e :: post ∧ (∀ x ∈ pre, ¬ p x) ∧ p e := by
  induction es with
  | nil => exact Or.inl fun e he => absurd he (List.not_mem_nil)
  | cons e es ih =>
    by_cases he : p e
    · exact Or.inr ⟨[], e, es, rfl, fun x hx => absurd hx (List.not_mem_nil), he⟩
    · obtain hnone | ⟨pre, x, post, rfl, hpre, hx⟩ := ih
      · exact Or.inl (List.forall_mem_cons.mpr ⟨he, hnone⟩)
      · exact Or.inr ⟨e :: pre, x, post, rfl, List.forall_mem_cons.mpr ⟨he, hpre⟩, hx⟩

/-- An element that is found stands behind elements with other identifiers. -/
theorem exists_append_of_findIe (h : findIe index es = some e) :
    ∃ pre post, es = pre ++ e :: post ∧ (∀ x ∈ pre, x.id ≠ index) ∧ e.id = index := by
  obtain ⟨he, pre, post, rfl, hpre⟩ := List.find?_eq_some_iff_append.mp h
  exact ⟨pre, post, rfl, fun x hx => by simpa using hpre x hx, of_decide_eq_true he⟩

/-- An element is inserted where one ends. -/
theorem insertIe_of_boundary (new : Ie) {off : ℕ} (h : Boundary off es) :
    ∃ pre post, es = pre ++ post ∧ (ieFormat.encode pre).length = off ∧
      insertIe new off es = pre ++ new :: post := by
  induction es generalizing off with
  | nil => exact ⟨[], [], rfl, h.symm, rfl⟩
  | cons e es ih =>
    rw [insertIe]
    by_cases hoff : off = 0
    · exact ⟨[], e :: es, rfl, hoff.symm, by rw [if_pos hoff, List.nil_append]⟩
    · obtain ⟨hle, hrest⟩ := h.resolve_left hoff
      obtain ⟨pre, post, rfl, hlen, hins⟩ := ih hrest
      refine ⟨e :: pre, post, rfl, ?_, ?_⟩
      · rw [Format.encode_cons, List.length_append, hlen]
        omega
      · rw [if_neg hoff, hins, List.cons_append]

/-- Behind the identifier, the rates and the parameter set of one byte an element ends. -/
theorem boundary_timOffset {ssid rates ds : Ie} (hssid : ssid.id = ssidIeId)
    (hrates : rates.id = supportedRatesIeId) (hds : ds.body.length = 1) (post : List Ie) :
    Boundary (timOffset (ssid :: rates :: ds :: post)) (ssid :: rates :: ds :: post) := by
  have hfindSsid : findIe ssidIeId (ssid :: rates :: ds :: post) = some ssid :=
    findIe_cons_self hssid _
  have hne : ssid.id ≠ supportedRatesIeId := by rw [hssid]; decide
  have hfindRates : findIe supportedRatesIeId ([ssid] ++ rates :: ds :: post) = some rates :=
    findIe_append_cons (List.forall_mem_singleton.mpr hne) hrates
  rw [List.singleton_append] at hfindRates
  have hhlen : ieFormat.hlen = 2 := rfl
  rw [timOffset, hfindSsid, hfindRates, Option.elim_some, Option.elim_some]
  simp only [Boundary, Format.length_enc, hhlen, hds]
  refine Or.inr ⟨by omega, Or.inr ⟨by omega, Or.inr ⟨by omega, ?_⟩⟩⟩
  have hzero : ssid.body.length + 2 + (rates.body.length + 2) + 3 - (2 + ssid.body.length) -
      (2 + rates.body.length) - (2 + 1) = 0 := by omega
  rw [hzero]
  cases post with
  | nil => rfl
  | cons e post => exact Or.inl rfl

/-! ### What is left as it is -/

/-- The elements with other identifiers. -/
def others (index : Byte) (es : List Ie) : List Ie := es.filter fun e => e.id ≠ index

theorem others_cons_self (he : e.id = index) : others index (e :: es) = others index es :=
  List.filter_cons_of_neg (by simpa using he)

theorem others_cons_congr {es' : List Ie} (e : Ie) (h : others index es = others index es') :
    others index (e :: es) = others index (e :: es') := by
  rw [others, others, List.filter_cons, List.filter_cons, ← others, ← others, h]

theorem others_putIe (new : Ie) (es : List Ie) :
    others new.id (putIe new es) = others new.id es := by
  induction es with
  | nil => exact others_cons_self rfl
  | cons e es ih =>
    rw [putIe]
    split
    · exact others_cons_self rfl
    · split
      · rename_i heq
        rw [others_cons_self rfl, others_cons_self heq]
      · exact others_cons_congr e ih

theorem others_replaceIe (new : Ie) (es : List Ie) :
    others new.id (replaceIe new es) = others new.id es := by
  induction es with
  | nil => rfl
  | cons e es ih =>
    rw [replaceIe]
    split
    · rename_i heq
      rw [others_cons_self rfl, others_cons_self heq]
    · exact others_cons_congr e ih

theorem others_insertIe (new : Ie) (off : ℕ) (es : List Ie) :
    others new.id (insertIe new off es) = others new.id es := by
  induction es generalizing off with
  | nil => exact others_cons_self rfl
  | cons e es ih =>
    rw [insertIe]
    split
    · exact others_cons_self rfl
    · exact others_cons_congr e (ih _)

theorem others_eraseP {p : Ie → Bool} (hp : ∀ e, p e = true → e.id = index) (es : List Ie) :
    others index (es.eraseP p) = others index es := by
  induction es with
  | nil => rfl
  | cons e es ih =>
    rw [List.eraseP_cons]
    cases he : p e with
    | true => rw [cond_true, others_cons_self (hp e he)]
    | false => exact others_cons_congr e ih

/-- An edit leaves the elements with other identifiers as they are, and their order. -/
theorem others_bcnSpec (aidBmpLen : ℕ) (es : List Ie) (edit : BcnEdit) :
    others edit.index (bcnSpec aidBmpLen es edit) = others edit.index es := by
  cases edit with
  | add index data =>
    rw [bcnSpec]
    split
    · exact others_putIe ⟨index, data⟩ es
    · rfl
  | remove index =>
    rw [bcnSpec]
    split
    · exact others_eraseP (fun e he => of_decide_eq_true he) es
    · rfl
  | removeEx index indexEx => exact others_eraseP (fun e he => (of_decide_eq_true he).1) es
  | tim timBitmap =>
    rw [bcnSpec]
    split
    · exact others_replaceIe ⟨timIeId, _⟩ es
    · exact others_insertIe ⟨timIeId, _⟩ _ es

/-- The first element with an identifier is one of the elements without another. -/
theorem findIe_others {index' : Byte} (h : index ≠ index') (es : List Ie) :
    findIe index (others index' es) = findIe index es := by
  rw [findIe, findIe, others, List.find?_filter]
  refine congrArg (fun p => es.find? p) (funext fun e => ?_)
  by_cases he : e.id = index
  · simp [he, h]
  · simp [he]

/-- Edits of other elements do not change the first one with an identifier. -/
theorem findIe_foldl_bcnSpec {edits : List BcnEdit} (h : ∀ edit ∈ edits, edit.index ≠ index)
    (aidBmpLen : ℕ) (es : List Ie) :
    findIe index (edits.foldl (bcnSpec aidBmpLen) es) = findIe index es := by
  induction edits generalizing es with
  | nil => rfl
  | cons edit edits ih =>
    rw [List.forall_mem_cons] at h
    have hne : index ≠ edit.index := fun heq => h.1 heq.symm
    rw [List.foldl_cons, ih h.2, ← findIe_others hne, others_bcnSpec, findIe_others hne]

theorem findIe_replaceIe (new : Ie) (h : (findIe new.id es).isSome) :
    findIe new.id (replaceIe new es) = some new := by
  obtain ⟨e, he⟩ := Option.isSome_iff_exists.mp h
  obtain ⟨pre, post, rfl, hpre, hid⟩ := exists_append_of_findIe he
  rw [replaceIe_append_cons hpre hid, findIe_append_cons hpre rfl]

theorem findIe_insertIe (new : Ie) (h : findIe new.id es = none) (off : ℕ) :
    findIe new.id (insertIe new off es) = some new := by
  induction es generalizing off with
  | nil => exact findIe_cons_self rfl _
  | cons e es ih =>
    rw [findIe_eq_none_iff, List.forall_mem_cons] at h
    rw [insertIe]
    split
    · exact findIe_cons_self rfl _
    · rw [findIe, List.find?_cons_of_neg (by simpa using h.1), ← findIe]
      exact ih (findIe_eq_none_iff.mpr h.2) _

/-- The map is in the element behind `update_BCNTIM`. -/
theorem findIe_bcnSpec_tim (aidBmpLen : ℕ) (es : List Ie) (timBitmap : List Byte) :
    findIe timIeId (bcnSpec aidBmpLen es (.tim timBitmap)) =
      some ⟨timIeId, timBody 0 1 timBitmap aidBmpLen⟩ := by
  rw [bcnSpec]
  split
  · rename_i hsome
    exact findIe_replaceIe ⟨timIeId, _⟩ hsome
  · rename_i hnone
    rw [Bool.not_eq_true, Option.isSome_eq_false_iff, Option.isNone_iff_eq_none] at hnone
    exact findIe_insertIe ⟨timIeId, _⟩ hnone _

end Sequences

/-! ## The end of an edit -/

section Splice

variable {b : BssEx} {fixed : List Byte} {es pre del mid post : List Ie}

/-- What is written and copied back stays inside the buffer. -/
theorem splice_eq (new rem : List Byte) {front rest : List Byte} {dst ret : ℕ}
    (hies : b.ies = front ++ rest) (hdst : front.length = dst) (hret : new.length = ret)
    (hfit : new.length + rem.length ≤ rest.length) :
    splice b dst new ret rem = some { b with
      ies := front ++ (new ++ (rem ++ (rest.drop new.length).drop rem.length))
      ieLength := (dst + ret + rem.length) % 2 ^ 32 } := by
  rw [splice, hies, overwrite_append hdst (by omega), Option.bind_eq_bind, Option.bind_some,
    ← List.append_assoc, overwrite_append (by rw [List.length_append, hdst, hret])
      (by rw [List.length_drop]; omega), Option.bind_some, List.append_assoc]

theorem length_encode_append3 :
    (ieFormat.encode (pre ++ (mid ++ post))).length = (ieFormat.encode pre).length +
      ((ieFormat.encode mid).length + (ieFormat.encode post).length) := by
  rw [Format.encode_append, Format.encode_append, List.length_append, List.length_append]

/-- Elements are replaced by others. -/
theorem holds_splice (del mid : List Ie) (hb : b.Holds fixed (pre ++ (del ++ post)))
    (hfits : ieFormat.Fits mid)
    (hmax : fixed.length + (ieFormat.encode (pre ++ (mid ++ post))).length ≤ maxIeSz) :
    ∃ b', splice b (fixed.length + (ieFormat.encode pre).length) (ieFormat.encode mid)
        (ieFormat.encode mid).length (ieFormat.encode post) = some b' ∧
      b'.Holds fixed (pre ++ (mid ++ post)) ∧ b'.probReq = b.probReq := by
  obtain ⟨tail, hies⟩ := hb.ies_eq
  have hsize := hb.length_ies
  rw [hies, List.length_append, List.length_append, length_encode_append3] at hsize
  rw [length_encode_append3] at hmax
  have hfront : b.ies = (fixed ++ ieFormat.encode pre) ++
      (ieFormat.encode del ++ (ieFormat.encode post ++ tail)) := by
    rw [hies, Format.encode_append, Format.encode_append]
    simp only [List.append_assoc]
  have hsplice := splice_eq (ieFormat.encode mid) (ieFormat.encode post) hfront
    List.length_append rfl (by simp only [List.length_append]; omega)
  refine ⟨_, hsplice, ?_, rfl⟩
  constructor
  · intro e he
    obtain he | he := List.mem_append.mp he
    · exact hb.fits e (List.mem_append_left _ he)
    · obtain he | he := List.mem_append.mp he
      · exact hfits e he
      · exact hb.fits e (List.mem_append_right _ (List.mem_append_right _ he))
  · exact hb.length_fixed
  · simp only [List.length_append, List.length_drop]
    omega
  · dsimp only
    rw [length_encode_append3, Nat.mod_eq_of_lt]
    · omega
    · have hsz : maxIeSz = 768 := rfl
      omega
  · refine ⟨((ieFormat.encode del ++ (ieFormat.encode post ++ tail)).drop
      (ieFormat.encode mid).length).drop (ieFormat.encode post).length, ?_⟩
    rw [Format.encode_append, Format.encode_append]
    simp only [List.append_assoc]

/-- The elements behind the place of an edit are saved. -/
theorem backupRemainder_eq (del : List Ie) (hb : b.Holds fixed (pre ++ (del ++ post))) :
    backupRemainder b (fixed.length + (ieFormat.encode pre).length) (ieFormat.encode del).length =
      some (ieFormat.encode post) := by
  obtain ⟨tail, hies⟩ := hb.ies_eq
  have hsize := hb.length_ies
  have hsz : maxIeSz = 768 := rfl
  rw [hies, List.length_append, List.length_append] at hsize
  have hlen := hb.ieLength_eq
  rw [length_encode_append3] at hlen hsize
  have hinner := usub_eq (a := b.ieLength) (b := fixed.length + (ieFormat.encode pre).length)
    (by omega) (by omega)
  rw [backupRemainder, hinner, usub_eq (by omega) (by omega), hlen, hies]
  have hrem : fixed.length + ((ieFormat.encode pre).length +
      ((ieFormat.encode del).length + (ieFormat.encode post).length)) -
        (fixed.length + (ieFormat.encode pre).length) - (ieFormat.encode del).length =
      (ieFormat.encode post).length := by omega
  rw [hrem, Format.encode_append, Format.encode_append]
  have hsplit : fixed ++ ((ieFormat.encode pre ++ (ieFormat.encode del ++ ieFormat.encode post)) ++
      tail) = (fixed ++ (ieFormat.encode pre ++ ieFormat.encode del)) ++
        (ieFormat.encode post ++ tail) := by
    simp only [List.append_assoc]
  rw [hsplit]
  exact load_middle (by simp only [List.length_append, Nat.add_assoc]) rfl

end Splice

/-! ## Searches -/

section Search

variable {p : Ie → Prop} [DecidablePred p] {pre post : List Ie} {e : Ie}

theorem firstIe_eq_none {es : List Ie} (h : ∀ e ∈ es, ¬ p e) (off : ℕ) :
    firstIe p es off = none := by
  induction es generalizing off with
  | nil => rfl
  | cons e es ih =>
    rw [List.forall_mem_cons] at h
    rw [firstIe, if_neg h.1, ih h.2]

theorem firstIe_append_cons (hpre : ∀ e ∈ pre, ¬ p e) (he : p e) (post : List Ie) (off : ℕ) :
    firstIe p (pre ++ e :: post) off = some (off + (ieFormat.encode pre).length) := by
  induction pre generalizing off with
  | nil =>
    rw [List.nil_append, firstIe, if_pos he, Format.encode_nil, List.length_nil, Nat.add_zero]
  | cons x pre ih =>
    rw [List.forall_mem_cons] at hpre
    rw [List.cons_append, firstIe, if_neg hpre.1, ih hpre.2, Format.encode_cons, List.length_append,
      Nat.add_assoc]

end Search

section Holds

variable {b : BssEx} {fixed : List Byte} {es pre post : List Ie} {e : Ie} {index : Byte} {n : ℕ}

theorem length_lt_of_holds (hb : b.Holds fixed es) :
    es.length ≤ (ieFormat.encode es).length ∧
      fixed.length + (ieFormat.encode es).length ≤ maxIeSz := by
  obtain ⟨tail, hies⟩ := hb.ies_eq
  have hsize := hb.length_ies
  rw [hies, List.length_append, List.length_append] at hsize
  exact ⟨ieFormat.length_le_length_encode (Nat.succ_pos 1) es, by omega⟩

/-- The search for an element, in the buffer of a beacon. -/
theorem exists_getBcnIe_eq (hb : b.Holds fixed es) (hfixed : fixed.length = fixedIeLength)
    (hn : maxIeSz ≤ n) (index : Byte) :
    ∃ tail, getBcnIe n b index =
      (lenAt (ieFormat.encode es ++ tail) (firstIe (fun e => e.id = index) es 0)).map fun r =>
        r.1.map fun p => (fixedIeLength + p, r.2.toNat) := by
  obtain ⟨tail, hies⟩ := hb.ies_eq
  obtain ⟨hcount, hsize⟩ := length_lt_of_holds hb
  have hsz : maxIeSz = 768 := rfl
  have hfix : fixedIeLength = 12 := rfl
  have hlen := hb.ieLength_eq
  have hlimit : (BitVec.ofNat 32 (usub b.ieLength fixedIeLength)).toInt =
      (ieFormat.encode es).length := by
    rw [usub_eq (by omega) (by omega), hlen, hfixed, Nat.add_sub_cancel_left,
      toInt_ofNat_of_lt (by omega)]
  have htest (e : Ie) (es : List Ie) : idTest index.toNat (ieFormat.encode (e :: es) ++ tail) =
      some (decide (e.id = index)) := by
    rw [idTest_encode, Option.some.injEq, decide_eq_decide, Int.natCast_inj, BitVec.toNat_inj]
  refine ⟨tail, ?_⟩
  have hdrop : b.ies.drop fixedIeLength = ieFormat.encode es ++ tail := by
    rw [hies, ← hfixed, List.drop_left]
  rw [getBcnIe, hdrop]
  refine congrArg (Option.map _) ?_
  rcases es with _ | ⟨e, es⟩
  · rw [rtwGetIe, if_pos (by rw [hlimit]; decide)]
    rfl
  · have hlimit' : (BitVec.ofNat 32 (usub b.ieLength fixedIeLength)).toInt =
        (ieFormat.encode (e :: es) ++ []).length := by rw [List.append_nil, hlimit]
    have hscan := getIeFrom_scan index.toNat tail hb.fits cut_nil hlimit'
      (by rw [List.append_nil]; omega) (n := n) (by omega)
    rw [List.nil_append, scanIes_eq_firstIe htest, Option.bind_some] at hscan
    rw [rtwGetIe_eq, hscan]
    rw [hlimit, length_encode_cons]
    omega

theorem getBcnIe_eq_none (hb : b.Holds fixed es) (hfixed : fixed.length = fixedIeLength)
    (hn : maxIeSz ≤ n) (hnone : ∀ e ∈ es, e.id ≠ index) : getBcnIe n b index = some none := by
  obtain ⟨tail, h⟩ := exists_getBcnIe_eq hb hfixed hn index
  rw [h, firstIe_eq_none hnone]
  rfl

/-- The first element is found. -/
theorem getBcnIe_eq_some (hb : b.Holds fixed (pre ++ e :: post))
    (hfixed : fixed.length = fixedIeLength) (hn : maxIeSz ≤ n) (hpre : ∀ x ∈ pre, x.id ≠ index)
    (he : e.id = index) :
    getBcnIe n b index =
      some (some (fixed.length + (ieFormat.encode pre).length, e.body.length)) := by
  obtain ⟨tail, h⟩ := exists_getBcnIe_eq hb hfixed hn index
  have hlength : (ieFormat.encode (pre ++ e :: post) ++ tail)[(ieFormat.encode pre).length + 1]? =
      some (BitVec.ofNat 8 e.body.length) := by
    rw [Format.encode_append, List.append_assoc, read_append]
    rfl
  have hbody := hb.fits e (List.mem_append_right _ List.mem_cons_self)
  rw [h, firstIe_append_cons hpre he, Nat.zero_add, lenAt, hlength, Option.map_some,
    toNat_length hbody, hfixed]
  rfl

/-- The comparison with `indexEx`, at an element that is not shorter. -/
theorem ieTest_eq {indexEx tail : List Byte} (h : e.id = index → indexEx.length ≤ e.body.length) :
    ieTest index (some indexEx) (ieFormat.encode (e :: es) ++ tail) =
      some (decide (IsIe index (some indexEx) e)) := by
  by_cases hie : IsIe index (some indexEx) e
  · rw [ieTest_of_isIe hie, decide_eq_true hie]
  · have hid : (ieFormat.encode (e :: es) ++ tail)[0]? = some e.id := rfl
    rw [ieTest, hid, Option.bind_some, decide_eq_false hie]
    by_cases heq : index = e.id
    · have hlen := h heq.symm
      have hsplit : ieFormat.encode (e :: es) ++ tail = ieFormat.hdr e.id e.body.length ++
          (e.body.take indexEx.length ++
            (e.body.drop indexEx.length ++ (ieFormat.encode es ++ tail))) := by
        rw [← List.append_assoc (e.body.take _), List.take_append_drop, Format.encode_cons,
          Format.enc, List.append_assoc, List.append_assoc]
      have hslice : slice (ieFormat.encode (e :: es) ++ tail) 2 indexEx.length =
          e.body.take indexEx.length := by
        rw [hsplit]
        exact slice_middle rfl (List.length_take_of_le hlen)
      have hfit : 2 + indexEx.length ≤ (ieFormat.encode (e :: es) ++ tail).length := by
        rw [List.length_append, length_encode_cons, List.length_append]
        omega
      have hne : e.body.take indexEx.length ≠ indexEx := by
        intro htake
        refine hie ⟨heq.symm, fun o ho => ?_⟩
        obtain rfl : indexEx = o := Option.some.inj ho
        rw [← htake]
        exact List.take_prefix _ _
      rw [if_pos heq, ouiMatches, Option.elim_some, memcmp_of_le hfit, hslice,
        beq_eq_false_iff_ne.mpr hne]
    · rw [if_neg heq]

theorem firstRight_ieTest {indexEx tail : List Byte}
    (hlong : ∀ e ∈ es, e.id = index → indexEx.length ≤ e.body.length) :
    FirstRight (ieTest index (some indexEx)) (IsIe index (some indexEx)) tail es := by
  induction es with
  | nil => trivial
  | cons e es ih =>
    rw [List.forall_mem_cons] at hlong
    rw [FirstRight, ieTest_eq hlong.1]
    by_cases hie : IsIe index (some indexEx) e
    · exact Or.inl ⟨by rw [decide_eq_true hie], hie⟩
    · exact Or.inr ⟨by rw [decide_eq_false hie], ih hlong.2⟩

/-- The search of `rtw_remove_bcn_ie_ex` is for the first element that begins with `indexEx`. -/
theorem exists_rtwGetIeEx_eq (hb : b.Holds fixed es) (hfixed : fixed.length = fixedIeLength)
    (hn : maxIeSz ≤ n) {indexEx : List Byte}
    (hlong : ∀ e ∈ es, e.id = index → indexEx.length ≤ e.body.length) :
    ∃ tail, rtwGetIeEx n (some (b.ies.drop fixedIeLength)) (usub b.ieLength fixedIeLength) index
        (some indexEx) false true =
      exResult (ieFormat.encode es ++ tail) false true
        (firstIe (IsIe index (some indexEx)) es 0) := by
  obtain ⟨tail, hies⟩ := hb.ies_eq
  obtain ⟨hcount, hsize⟩ := length_lt_of_holds hb
  have hsz : maxIeSz = 768 := rfl
  have hfix : fixedIeLength = 12 := rfl
  have hlen := hb.ieLength_eq
  have hdrop : b.ies.drop fixedIeLength = ieFormat.encode es ++ tail := by
    rw [hies, ← hfixed, List.drop_left]
  have hin : usub b.ieLength fixedIeLength = (ieFormat.encode es).length := by
    rw [usub_eq (by omega) (by omega), hlen, hfixed, Nat.add_sub_cancel_left]
  have hscan := rtwGetIeEx_scan index (some indexEx) false true tail hb.fits cut_nil
    (by rw [List.append_nil]; omega) (n := n) (by omega)
  rw [List.append_nil, List.nil_append, (scanIes_eq_firstIe_iff
    (fun e es h => ieTest_of_isIe h es tail) es 0).mpr (firstRight_ieTest hlong),
    Option.bind_some] at hscan
  exact ⟨tail, by rw [hdrop, hin, hscan]⟩

theorem rtwGetIeEx_eq_none (hb : b.Holds fixed es) (hfixed : fixed.length = fixedIeLength)
    (hn : maxIeSz ≤ n) {indexEx : List Byte}
    (hlong : ∀ e ∈ es, e.id = index → indexEx.length ≤ e.body.length)
    (hnone : ∀ e ∈ es, ¬ IsIe index (some indexEx) e) :
    rtwGetIeEx n (some (b.ies.drop fixedIeLength)) (usub b.ieLength fixedIeLength) index
      (some indexEx) false true = some none := by
  obtain ⟨tail, h⟩ := exists_rtwGetIeEx_eq hb hfixed hn hlong
  rw [h, firstIe_eq_none hnone, exResult]

theorem rtwGetIeEx_eq_some (hb : b.Holds fixed (pre ++ e :: post))
    (hfixed : fixed.length = fixedIeLength) (hn : maxIeSz ≤ n) {indexEx : List Byte}
    (hlong : ∀ x ∈ pre ++ e :: post, x.id = index → indexEx.length ≤ x.body.length)
    (hpre : ∀ x ∈ pre, ¬ IsIe index (some indexEx) x) (he : IsIe index (some indexEx) e) :
    rtwGetIeEx n (some (b.ies.drop fixedIeLength)) (usub b.ieLength fixedIeLength) index
      (some indexEx) false true =
        some (some ⟨(ieFormat.encode pre).length, e.body.length + 2, []⟩) := by
  obtain ⟨tail, h⟩ := exists_rtwGetIeEx_eq hb hfixed hn hlong
  have hlength : (ieFormat.encode (pre ++ e :: post) ++ tail)[(ieFormat.encode pre).length + 1]? =
      some (BitVec.ofNat 8 e.body.length) := by
    rw [Format.encode_append, List.append_assoc, read_append]
    rfl
  have hbody := hb.fits e (List.mem_append_right _ List.mem_cons_self)
  rw [h, firstIe_append_cons hpre he, Nat.zero_add, exResult, foundAt, hlength,
    if_neg Bool.false_ne_true, Option.bind_some, if_pos rfl, Option.map_some, Option.map_some,
    Option.map_some, toNat_length hbody]

end Holds

/-! ## Edits of the buffer -/

section Edits

variable {b : BssEx} {fixed : List Byte} {es : List Ie} {index : Byte} {n : ℕ}

theorem encode_singleton (e : Ie) : ieFormat.encode [e] = ieFormat.enc e := by
  rw [Format.encode_cons, Format.encode_nil, List.append_nil]

variable {pre post : List Ie} {e : Ie}

/-- What is saved for an edit at an element. -/
theorem backupRemainder_at (hb : b.Holds fixed (pre ++ e :: post)) :
    backupRemainder b (fixed.length + (ieFormat.encode pre).length) (e.body.length + 2) =
      some (ieFormat.encode post) := by
  have h := backupRemainder_eq [e] hb
  rw [encode_singleton, Format.length_enc, Nat.add_comm ieFormat.hlen] at h
  exact h

/-- The element is removed. -/
theorem splice_remove (hb : b.Holds fixed (pre ++ e :: post)) :
    ∃ b', splice b (fixed.length + (ieFormat.encode pre).length) [] 0 (ieFormat.encode post) =
        some b' ∧ b'.Holds fixed (pre ++ post) ∧ b'.probReq = b.probReq := by
  have hsize := (length_lt_of_holds hb).2
  have hshort : (ieFormat.encode (pre ++ ([] ++ post))).length ≤
      (ieFormat.encode (pre ++ e :: post)).length := by
    rw [length_encode_append3, Format.encode_append, List.length_append, Format.encode_cons,
      List.length_append]
    simp
  exact holds_splice [e] [] hb (fun _ h => absurd h List.not_mem_nil) (by omega)

/-- The element is replaced. -/
theorem splice_replace (hb : b.Holds fixed (pre ++ e :: post)) {new : Ie}
    (hnew : new.body.length ≤ 255)
    (hmax : fixed.length + (ieFormat.encode (pre ++ new :: post)).length ≤ maxIeSz) :
    ∃ b', splice b (fixed.length + (ieFormat.encode pre).length) (ieFormat.enc new)
        (ieFormat.enc new).length (ieFormat.encode post) = some b' ∧
      b'.Holds fixed (pre ++ new :: post) ∧ b'.probReq = b.probReq := by
  have h := holds_splice [e] [new] hb
    (List.forall_mem_singleton.mpr hnew) hmax
  rwa [encode_singleton] at h

/-- An element is inserted between two. -/
theorem splice_insert (hb : b.Holds fixed (pre ++ post)) {new : Ie} (hnew : new.body.length ≤ 255)
    (hmax : fixed.length + (ieFormat.encode (pre ++ new :: post)).length ≤ maxIeSz) :
    ∃ b', splice b (fixed.length + (ieFormat.encode pre).length) (ieFormat.enc new)
        (ieFormat.enc new).length (ieFormat.encode post) = some b' ∧
      b'.Holds fixed (pre ++ new :: post) ∧ b'.probReq = b.probReq := by
  have h := holds_splice [] [new] hb
    (List.forall_mem_singleton.mpr hnew) hmax
  rwa [encode_singleton] at h

/-- `rtw_remove_bcn_ie` removes the first element, if it is not empty. -/
theorem rtwRemoveBcnIe_holds (hb : b.Holds fixed es) (hfixed : fixed.length = fixedIeLength)
    (hn : maxIeSz ≤ n) (index : Byte) (aidBmpLen : ℕ) :
    ∃ b', rtwRemoveBcnIe n b index = some b' ∧
      b'.Holds fixed (bcnSpec aidBmpLen es (.remove index)) := by
  rw [bcnSpec]
  obtain hnone | ⟨pre, e, post, rfl, hpre, he⟩ := exists_first (fun e : Ie => e.id = index) es
  · rw [rtwRemoveBcnIe, getBcnIe_eq_none hb hfixed hn hnone, findIe_eq_none_iff.mpr hnone]
    exact ⟨b, rfl, hb⟩
  · rw [rtwRemoveBcnIe, getBcnIe_eq_some hb hfixed hn hpre he, findIe_append_cons hpre he,
      Option.any_some, eraseP_append_cons hpre he]
    by_cases hbody : e.body = []
    · rw [hbody]
      exact ⟨b, rfl, hb⟩
    · have hlen : e.body.length ≠ 0 := fun h => hbody (List.length_eq_zero_iff.mp h)
      obtain ⟨b', hsplice, hb', -⟩ := splice_remove hb
      refine ⟨b', ?_, by rwa [if_pos (decide_eq_true hbody)]⟩
      simp only [Option.bind_eq_bind, Option.bind_some, if_neg hlen, backupRemainder_at hb, hsplice]

/-- What is done with an element that is found. -/
theorem rtwRemoveBcnIeEx_of_found {f : Found} {indexEx rem : List Byte}
    (hfound : rtwGetIeEx n (some (b.ies.drop fixedIeLength)) (usub b.ieLength fixedIeLength) index
      (some indexEx) false true = some (some f)) (hlen : f.len ≠ 0)
    (hrem : backupRemainder b (fixedIeLength + f.ptr) f.len = some rem) :
    rtwRemoveBcnIeEx n b index indexEx = splice b (fixedIeLength + f.ptr) [] 0 rem := by
  rw [rtwRemoveBcnIeEx, hfound, Option.bind_eq_bind, Option.bind_some]
  dsimp only
  rw [if_neg hlen, hrem, Option.bind_eq_bind, Option.bind_some]

/-- `rtw_remove_bcn_ie_ex` removes the first element that begins with `indexEx`. -/
theorem rtwRemoveBcnIeEx_holds (hb : b.Holds fixed es) (hfixed : fixed.length = fixedIeLength)
    (hn : maxIeSz ≤ n) {indexEx : List Byte}
    (hlong : ∀ e ∈ es, e.id = index → indexEx.length ≤ e.body.length) (aidBmpLen : ℕ) :
    ∃ b', rtwRemoveBcnIeEx n b index indexEx = some b' ∧
      b'.Holds fixed (bcnSpec aidBmpLen es (.removeEx index indexEx)) := by
  rw [bcnSpec]
  obtain hnone | ⟨pre, e, post, rfl, hpre, he⟩ := exists_first (IsIe index (some indexEx)) es
  · rw [rtwRemoveBcnIeEx, rtwGetIeEx_eq_none hb hfixed hn hlong hnone, List.eraseP_of_forall_not
      (fun e h => by simpa using hnone e h)]
    exact ⟨b, rfl, hb⟩
  · obtain ⟨b', hsplice, hb', -⟩ := splice_remove hb
    have hbackup := backupRemainder_at hb
    have hfound := rtwGetIeEx_eq_some hb hfixed hn hlong hpre he
    rw [hfixed] at hbackup hsplice
    refine ⟨b', ?_, by rwa [eraseP_append_cons hpre he]⟩
    rw [rtwRemoveBcnIeEx_of_found hfound (Nat.succ_ne_zero _) hbackup, hsplice]

/-- The loop of `rtw_add_bcn_ie`, from the elements `es` on. -/
theorem addBcnIeLoop_eq (pre : List Ie) (hb : b.Holds fixed (pre ++ es)) {i : ℕ}
    (hi : fixed.length + (ieFormat.encode pre).length = i) (hn : es.length < n)
    (p : Option (ℕ × ℕ)) : addBcnIeLoop b index n i p = some (addLast index i p es) := by
  induction es generalizing pre i n p with
  | nil =>
    have hlen := hb.ieLength_eq
    rw [List.append_nil] at hlen
    obtain ⟨m, rfl⟩ := Nat.exists_eq_succ_of_ne_zero (Nat.pos_iff_ne_zero.mp hn)
    rw [addBcnIeLoop, if_neg (by omega), addLast]
  | cons e es ih =>
    obtain ⟨m, rfl⟩ := Nat.exists_eq_succ_of_ne_zero (Nat.ne_zero_of_lt hn)
    obtain ⟨tail, hies⟩ := hb.ies_eq
    have hsz : maxIeSz = 768 := rfl
    have hsize := (length_lt_of_holds hb).2
    have hlen := hb.ieLength_eq
    have hbody := hb.fits e (List.mem_append_right _ List.mem_cons_self)
    have hbuf : b.ies = (fixed ++ ieFormat.encode pre) ++
        (ieFormat.hdr e.id e.body.length ++ (e.body ++ (ieFormat.encode es ++ tail))) := by
      rw [hies, Format.encode_append, Format.encode_cons, Format.enc]
      simp only [List.append_assoc]
    have hpos : (fixed ++ ieFormat.encode pre).length = i := by rw [List.length_append, hi]
    have hid : b.ies[i]? = some e.id := by
      rw [hbuf, ← hpos, read_append_zero]
      rfl
    have hlength : b.ies[i + 1]? = some (BitVec.ofNat 8 e.body.length) := by
      rw [hbuf, ← hpos, read_append]
      rfl
    rw [Format.encode_append, Format.encode_cons, List.length_append, List.length_append,
      Format.length_enc] at hsize hlen
    have hhlen : ieFormat.hlen = 2 := rfl
    rw [addBcnIeLoop, if_pos (by omega), hid, hlength, addLast]
    simp only [Option.bind_eq_bind, Option.bind_some, toNat_length hbody]
    by_cases hlt : index < e.id
    · rw [if_pos hlt, if_pos hlt]
    · rw [if_neg hlt, if_neg hlt]
      by_cases heq : e.id = index
      · rw [if_pos heq, if_pos heq]
      · have hnext : (i + (e.body.length + 2)) % 2 ^ 32 = i + (ieFormat.enc e).length := by
          rw [Format.length_enc, hhlen, Nat.mod_eq_of_lt (by omega)]
          omega
        rw [if_neg heq, if_neg heq, hnext]
        refine ih (pre ++ [e]) ?_ ?_ (Nat.lt_of_succ_lt_succ hn) _
        · rwa [List.append_assoc]
        · rw [Format.encode_append, encode_singleton, List.length_append, ← Nat.add_assoc, hi]

/-- `rtw_add_bcn_ie` puts the element in front of the first larger one, if it can. -/
theorem rtwAddBcnIe_holds (hb : b.Holds fixed es) (hfixed : fixed.length = fixedIeLength)
    (hn : maxIeSz < n) {data : List Byte} {aidBmpLen : ℕ}
    (hok : BcnOk aidBmpLen es (.add index data)) :
    ∃ b', rtwAddBcnIe n b index data = some b' ∧
      b'.Holds fixed (bcnSpec aidBmpLen es (.add index data)) := by
  obtain ⟨hmax, hdata⟩ := hok
  rw [bcnSpec] at hmax ⊢
  have hcount := length_lt_of_holds hb
  have hloop : addBcnIeLoop b index n fixedIeLength none =
      some (addLast index fixedIeLength none es) :=
    addBcnIeLoop_eq [] hb (by rw [Format.encode_nil, List.length_nil, Nat.add_zero, hfixed])
      (by omega) none
  have hnew : (data.length + 2) = (ieFormat.enc ⟨index, data⟩).length := by
    rw [Format.length_enc, Nat.add_comm]
    rfl
  rw [rtwAddBcnIe, hloop]
  obtain ⟨hlast, hok, -⟩ | ⟨pre, e, post, bmatch, rfl, hlast, hok, hput⟩ :=
    addLast_cases ⟨index, data⟩ es fixedIeLength none false
  · rw [hlast, hok]
    exact ⟨b, rfl, hb⟩
  · rw [hlast, Option.bind_eq_bind, Option.bind_some]
    rw [hok] at hmax ⊢
    dsimp only
    by_cases hbody : e.body = []
    · rw [hbody]
      exact ⟨b, rfl, hb⟩
    · have hlen : e.body.length ≠ 0 := fun h => hbody (List.length_eq_zero_iff.mp h)
      have hfull : (!e.body.isEmpty) = true := by
        rw [Bool.not_eq_true', List.isEmpty_eq_false_iff]
        exact hbody
      rw [if_neg hlen, ← hfixed, backupRemainder_at hb, Option.bind_eq_bind, Option.bind_some]
      rw [if_pos hfull, hput, ← hfixed] at hmax
      rw [if_pos hfull, hput, hnew]
      cases bmatch with
      | true =>
        obtain ⟨b', hsplice, hb', -⟩ := splice_replace hb hdata hmax
        exact ⟨b', hsplice, hb'⟩
      | false =>
        -- behind the last element that is not larger
        have hb2 : b.Holds fixed ((pre ++ [e]) ++ post) := by rwa [List.append_assoc]
        obtain ⟨b', hsplice, hb', -⟩ := splice_insert hb2 hdata hmax
        refine ⟨b', ?_, hb'⟩
        rw [Format.encode_append, encode_singleton, List.length_append, Format.length_enc,
          ← Nat.add_assoc, Nat.add_comm ieFormat.hlen] at hsplice
        exact hsplice

/-- The length that is found is that of the first element. -/
theorem exists_getBcnIe_findIe (hb : b.Holds fixed es) (hfixed : fixed.length = fixedIeLength)
    (hn : maxIeSz ≤ n) (index : Byte) :
    ∃ r, getBcnIe n b index = some r ∧
      r.elim 0 (fun t => t.2 + 2) = (findIe index es).elim 0 (fun e => e.body.length + 2) := by
  obtain hnone | ⟨pre, e, post, rfl, hpre, he⟩ := exists_first (fun e : Ie => e.id = index) es
  · exact ⟨none, getBcnIe_eq_none hb hfixed hn hnone, by rw [findIe_eq_none_iff.mpr hnone]; rfl⟩
  · exact ⟨_, getBcnIe_eq_some hb hfixed hn hpre he, by rw [findIe_append_cons hpre he]; rfl⟩

/-- What `update_BCNTIM` does with an element that is found. -/
theorem updateBcntim_of_found {timBitmap rem new : List Byte} {p len ret aidBmpLen : ℕ}
    (hnew : rtwSetTimIe 0 1 timBitmap aidBmpLen = (new, ret))
    (hfound : getBcnIe n b timIeId = some (some (p, len))) (hlen : len ≠ 0)
    (hrem : backupRemainder b p (len + 2) = some rem) :
    updateBcntim n b timBitmap aidBmpLen = splice b p new ret rem := by
  rw [updateBcntim, hnew, hfound, Option.bind_eq_bind, Option.bind_some, Option.filter_some,
    if_pos (decide_eq_true (Nat.pos_of_ne_zero hlen))]
  dsimp only
  rw [hrem, Option.bind_eq_bind, Option.bind_some]

/-- What `update_BCNTIM` does if there is none. -/
theorem updateBcntim_of_none {timBitmap rem new : List Byte} {ret aidBmpLen : ℕ}
    {ssid rates : Option (ℕ × ℕ)} (hnew : rtwSetTimIe 0 1 timBitmap aidBmpLen = (new, ret))
    (htim : getBcnIe n b timIeId = some none) (hssid : getBcnIe n b ssidIeId = some ssid)
    (hrates : getBcnIe n b supportedRatesIeId = some rates)
    (hrem : backupRemainder b (fixedIeLength + ssid.elim 0 (fun t => t.2 + 2) +
      rates.elim 0 (fun t => t.2 + 2) + 3) 0 = some rem) :
    updateBcntim n b timBitmap aidBmpLen =
      splice b (fixedIeLength + ssid.elim 0 (fun t => t.2 + 2) +
        rates.elim 0 (fun t => t.2 + 2) + 3) new ret rem := by
  rw [updateBcntim, hnew, htim, Option.bind_eq_bind, Option.bind_some, Option.filter_none]
  change ((getBcnIe n b ssidIeId).bind fun ssid =>
    (getBcnIe n b supportedRatesIeId).bind fun rates =>
    (backupRemainder b (fixedIeLength + ssid.elim 0 (fun t => t.2 + 2) +
      rates.elim 0 (fun t => t.2 + 2) + 3) 0).bind fun rem =>
        splice b (fixedIeLength + ssid.elim 0 (fun t => t.2 + 2) +
          rates.elim 0 (fun t => t.2 + 2) + 3) new ret rem) = _
  rw [hssid, hrates, Option.bind_some, Option.bind_some, hrem, Option.bind_some]

/-- `update_BCNTIM` replaces the element, or inserts it. -/
theorem updateBcntim_holds (hb : b.Holds fixed es) (hfixed : fixed.length = fixedIeLength)
    (hn : maxIeSz ≤ n) {timBitmap : List Byte} {aidBmpLen : ℕ} (hpos : 0 < aidBmpLen)
    (hlen : aidBmpLen ≤ 250) (hok : BcnOk aidBmpLen es (.tim timBitmap)) :
    ∃ b', updateBcntim n b timBitmap aidBmpLen = some b' ∧
      b'.Holds fixed (bcnSpec aidBmpLen es (.tim timBitmap)) := by
  obtain ⟨hmax, hbmp, hplace⟩ := hok
  obtain ⟨-, -, hend⟩ := timRange_spec timBitmap hpos
  rw [bcnSpec, ← hfixed] at hmax
  have hnew := rtwSetTimIe_eq 0 1 hbmp hpos hlen
  rw [bcnSpec]
  generalize hbody : timBody 0 1 timBitmap aidBmpLen = body at hmax hnew ⊢
  have hfits : body.length ≤ 255 := by
    rw [← hbody, length_timBody 0 1 hbmp hpos]
    omega
  obtain hnone | ⟨pre, e, post, rfl, hpre, he⟩ := exists_first (fun e : Ie => e.id = timIeId) es
  · -- there is none: behind the identifier, the rates and the parameter set
    have hfind := findIe_eq_none_iff.mpr hnone
    obtain ⟨ssid, hssid, hssidLen⟩ := exists_getBcnIe_findIe hb hfixed hn ssidIeId
    obtain ⟨rates, hrates, hratesLen⟩ := exists_getBcnIe_findIe hb hfixed hn supportedRatesIeId
    rw [hfind] at hplace hmax ⊢
    obtain ⟨pre, post, rfl, hoff, hins⟩ :=
      insertIe_of_boundary ⟨timIeId, body⟩ hplace
    rw [Option.isSome_none, if_neg Bool.false_ne_true, hins] at hmax ⊢
    obtain ⟨b', hsplice, hb', -⟩ := splice_insert hb hfits hmax
    have hbackup := backupRemainder_eq [] hb
    refine ⟨b', ?_, hb'⟩
    rw [hoff, hfixed, timOffset, ← hssidLen, ← hratesLen, ← Nat.add_assoc, ← Nat.add_assoc]
      at hbackup hsplice
    rw [updateBcntim_of_none hnew (getBcnIe_eq_none hb hfixed hn hnone) hssid hrates hbackup,
      hsplice]
  · have hfind : findIe timIeId (pre ++ e :: post) = some e := findIe_append_cons hpre he
    rw [hfind] at hplace hmax ⊢
    have hne : e.body.length ≠ 0 := fun h => hplace (List.length_eq_zero_iff.mp h)
    rw [Option.isSome_some, if_pos rfl, replaceIe_append_cons hpre he] at hmax ⊢
    obtain ⟨b', hsplice, hb', -⟩ := splice_replace hb hfits hmax
    refine ⟨b', ?_, hb'⟩
    rw [updateBcntim_of_found hnew (getBcnIe_eq_some hb hfixed hn hpre he) hne
      (backupRemainder_at hb), hsplice]

end Edits

/-! ## Runs -/

section Runs

variable {b : BssEx} {fixed : List Byte} {es : List Ie} {n aidBmpLen : ℕ} {edits : List BcnEdit}

/-- The buffer follows an edit of the elements. -/
theorem bcnStep_holds (hb : b.Holds fixed es) (hfixed : fixed.length = fixedIeLength)
    (hn : maxIeSz < n) (hpos : 0 < aidBmpLen) (hlen : aidBmpLen ≤ 250) {edit : BcnEdit}
    (hok : BcnOk aidBmpLen es edit) :
    ∃ b', bcnStep n aidBmpLen b edit = some b' ∧
      b'.Holds fixed (bcnSpec aidBmpLen es edit) := by
  cases edit with
  | add index data => exact rtwAddBcnIe_holds hb hfixed hn hok
  | remove index => exact rtwRemoveBcnIe_holds hb hfixed hn.le index aidBmpLen
  | removeEx index indexEx => exact rtwRemoveBcnIeEx_holds hb hfixed hn.le hok.2 aidBmpLen
  | tim timBitmap => exact updateBcntim_holds hb hfixed hn.le hpos hlen hok

/-- The buffer follows a run of edits. -/
theorem holds_foldlM (hb : b.Holds fixed es) (hfixed : fixed.length = fixedIeLength)
    (hn : maxIeSz < n) (hpos : 0 < aidBmpLen) (hlen : aidBmpLen ≤ 250)
    (hrun : BcnRunOk aidBmpLen es edits) :
    ∃ b', edits.foldlM (bcnStep n aidBmpLen) b = some b' ∧
      b'.Holds fixed (edits.foldl (bcnSpec aidBmpLen) es) := by
  induction edits generalizing b es with
  | nil => exact ⟨b, rfl, hb⟩
  | cons edit edits ih =>
    obtain ⟨hok, hrest⟩ := hrun
    obtain ⟨b', hstep, hb'⟩ := bcnStep_holds hb hfixed hn hpos hlen hok
    rw [List.foldlM_cons, hstep]
    exact ih hb' hrest

theorem bcnRunOk_append {edits' : List BcnEdit} :
    BcnRunOk aidBmpLen es (edits ++ edits') ↔ BcnRunOk aidBmpLen es edits ∧
      BcnRunOk aidBmpLen (edits.foldl (bcnSpec aidBmpLen) es) edits' := by
  induction edits generalizing es with
  | nil => exact (and_iff_right trivial).symm
  | cons edit edits ih =>
    rw [List.cons_append, BcnRunOk, BcnRunOk, ih, and_assoc, List.foldl_cons]

/-- The buffer follows the sequence of elements over every run of edits, and a station reads from it
the map that was written last, whatever is edited afterwards. -/
theorem run_bcn_refines (hb : b.Holds fixed es) (hfixed : fixed.length = fixedIeLength)
    (hn : maxIeSz < n) (hpos : 0 < aidBmpLen) (hlen : aidBmpLen ≤ 250)
    (hrun : BcnRunOk aidBmpLen es edits) :
    ∃ b', edits.foldlM (bcnStep n aidBmpLen) b = some b' ∧
      b'.Holds fixed (edits.foldl (bcnSpec aidBmpLen) es) ∧
      ∀ before timBitmap later, edits = before ++ .tim timBitmap :: later →
        (∀ edit ∈ later, edit.index ≠ timIeId) →
        ∃ e, findIe timIeId (edits.foldl (bcnSpec aidBmpLen) es) = some e ∧
          ∀ aid, timBit e.body aid = bmpBit timBitmap aid := by
  obtain ⟨b', hfold, hb'⟩ := holds_foldlM hb hfixed hn hpos hlen hrun
  refine ⟨b', hfold, hb', ?_⟩
  rintro before timBitmap later rfl hlater
  obtain ⟨-, ⟨-, hbmp, -⟩, -⟩ := bcnRunOk_append.mp hrun
  refine ⟨⟨timIeId, timBody 0 1 timBitmap aidBmpLen⟩, ?_, fun aid => ?_⟩
  · rw [List.foldl_append, List.foldl_cons, findIe_foldl_bcnSpec hlater, findIe_bcnSpec_tim]
  · exact timBit_timBody 0 1 hbmp hpos (by omega) aid

/-- The identifier "a", a rate, and the channel. -/
def bcnElems : List Ie := [⟨0, [0x61]⟩, ⟨1, [0x82]⟩, ⟨3, [6]⟩]

def bcnFixed : List Byte := List.replicate 12 0

def bcnOf (es : List Ie) : BssEx where
  ies := bcnFixed ++ (ieFormat.encode es ++
    List.replicate (maxIeSz - (12 + (ieFormat.encode es).length)) 0)
  ieLength := 12 + (ieFormat.encode es).length
  probReq := false

theorem holds_bcnOf (hfits : ieFormat.Fits es) (hmax : 12 + (ieFormat.encode es).length ≤ maxIeSz) :
    (bcnOf es).Holds bcnFixed es := by
  refine ⟨hfits, rfl, ?_, rfl, _, rfl⟩
  rw [bcnOf, List.length_append, List.length_append, List.length_replicate]
  change 12 + _ = _
  omega

/-- An element is added, the map is written, the element is removed, and the map is still read. -/
theorem run_bcn_three :
    ∃ b', [BcnEdit.add 3 [11], .tim [0, 4], .remove 3].foldlM (bcnStep 769 2) (bcnOf bcnElems) =
        some b' ∧
      b'.Holds bcnFixed [⟨0, [0x61]⟩, ⟨1, [0x82]⟩, ⟨5, [0, 1, 0, 0, 4]⟩] ∧
      timBit [0, 1, 0, 0, 4] 10 = true := by
  have hfits : ∀ e ∈ bcnElems, e.body.length ≤ 255 := by decide
  have hput : BcnRunOk 2 bcnElems [.add 3 [11], .tim [0, 4], .remove 3] := by
    refine ⟨⟨by decide, by decide⟩, ⟨by decide, rfl, ?_⟩, ⟨by decide, trivial⟩, trivial⟩
    exact boundary_timOffset rfl rfl rfl []
  obtain ⟨b', hfold, hb', htim⟩ := run_bcn_refines (n := 769) (holds_bcnOf hfits (by decide)) rfl
    (by decide) (by decide) (by decide) hput
  obtain ⟨e, he, hbit⟩ := htim [.add 3 [11]] [0, 4] [.remove 3] rfl (by decide)
  refine ⟨b', hfold, hb', ?_⟩
  have hfind : findIe timIeId ([BcnEdit.add 3 [11], .tim [0, 4], .remove 3].foldl (bcnSpec 2)
      bcnElems) = some ⟨5, [0, 1, 0, 0, 4]⟩ := by decide
  rw [hfind, Option.some.injEq] at he
  have h := hbit 10
  rw [← he] at h
  exact h.trans (by decide)

end Runs

end Rtl88x2cu.Ap.Beacon
