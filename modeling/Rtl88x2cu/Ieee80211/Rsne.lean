import Mathlib.Algebra.Order.Ring.Nat
import Mathlib.Data.List.Induction
import Mathlib.Data.List.Nodup
import Mathlib.Data.Option.Basic
import Rtl88x2cu.Ieee80211.VendorSearch

/-!
# RSN elements

`rtw_rsne_info_parse` (`core/rtw_ieee80211.c`) takes an RSN element apart. All fields behind the
version are optional from the end on: the element may be cut off in front of each field, and in
front of the list behind a count. `rtw_parse_wpa2_ie` turns the lists of suites into bitmaps.

* `GroupCs` is what such an element has behind its version; `GroupCs.bytes` are its bytes.
* `Reads` says that a part of the parser accepts exactly the bytes of a part of the element.
* `rsne_ok` says that the parser stays inside the element, which elements it accepts, and that what
  it returns denotes the fields; and that the bitmaps are the unions of the listed suites.
-/

namespace Rtl88x2cu.Ieee80211.Rsne

open Bytes Tlv VendorIe

/-! ## Model -/

/-- `struct rsne_info`; a pointer is an offset from the beginning of the element. -/
structure RsneInfo where
  gcs : Option ℕ := none
  pcsCnt : ℕ := 0
  pcsList : Option ℕ := none
  akmCnt : ℕ := 0
  akmList : Option ℕ := none
  cap : Option ℕ := none
  pmkidCnt : ℕ := 0
  pmkidList : Option ℕ := none
  gmcs : Option ℕ := none
  err : Bool := false
  deriving DecidableEq, Repr

/-- What the function stores and returns; `none` is a read outside of the element. -/
abbrev Parse := Option (RsneInfo × Bool)

/-- The label `err`. -/
def err (info : RsneInfo) : Parse := some ({ info with err := true }, false)

/-- The label `exit`. -/
def exit (info : RsneInfo) : Parse := some (info, true)

/-- Where the next part does not fit in: `if (ie + ie_len != pos) goto err; goto exit;`. -/
def cutOff (ie : List Byte) (pos : ℕ) (info : RsneInfo) : Parse :=
  if ie.length ≠ pos then err info else exit info

/-- A field of `n` bytes, and what comes behind it. -/
def field (n : ℕ) (set : RsneInfo → ℕ → RsneInfo) (next : List Byte → ℕ → RsneInfo → Parse)
    (ie : List Byte) (pos : ℕ) (info : RsneInfo) : Parse :=
  if ie.length < pos + n then cutOff ie pos info else next ie (pos + n) (set info pos)

/-- A count and a list of suites, and what comes behind them. -/
def suiteList (set : RsneInfo → ℕ → ℕ → RsneInfo) (next : List Byte → ℕ → RsneInfo → Parse)
    (ie : List Byte) (pos : ℕ) (info : RsneInfo) : Parse :=
  if ie.length < pos + 2 then cutOff ie pos info
  else do
    let cnt ← getLe16 ie pos
    let pos := pos + 2
    if ie.length < pos + 4 * cnt then cutOff ie pos info
    else next ie (pos + 4 * cnt) (set info cnt pos)

/-- Group Mgmt CS. -/
def groupMgmtCs : List Byte → ℕ → RsneInfo → Parse :=
  field 4 (fun info pos => { info with gmcs := some pos }) fun _ _ => exit

/-- PMKID. Here the list must not be missing. -/
def pmkid (ie : List Byte) (pos : ℕ) (info : RsneInfo) : Parse :=
  if ie.length < pos + 2 then cutOff ie pos info
  else do
    let cnt ← getLe16 ie pos
    let pos := pos + 2
    if ie.length < pos + 16 * cnt then err info
    else groupMgmtCs ie (pos + 16 * cnt) { info with pmkidCnt := cnt, pmkidList := some pos }

/-- RSN cap. -/
def rsnCap : List Byte → ℕ → RsneInfo → Parse :=
  field 2 (fun info pos => { info with cap := some pos }) pmkid

/-- AKM. -/
def akm : List Byte → ℕ → RsneInfo → Parse :=
  suiteList (fun info cnt pos => { info with akmCnt := cnt, akmList := some pos }) rsnCap

/-- Pairwise CS. -/
def pairwiseCs : List Byte → ℕ → RsneInfo → Parse :=
  suiteList (fun info cnt pos => { info with pcsCnt := cnt, pcsList := some pos }) akm

/-- Group CS. -/
def groupCs : List Byte → ℕ → RsneInfo → Parse :=
  field 4 (fun info pos => { info with gcs := some pos }) pairwiseCs

/-- `WLAN_EID_RSN`. -/
def wlanEidRsn : Byte := 48

/-- `rtw_rsne_info_parse`, for the `ie_len` bytes of `ie`. -/
def rtwRsneInfoParse (ie : List Byte) : Parse :=
  if ie.length < 4 then err {}
  else do
    let eid ← ie[0]?
    let len ← ie[1]?
    if eid ≠ wlanEidRsn ∨ len.toNat ≠ ie.length - 2 then err {}
    else
      let ver ← getLe16 ie 2
      if 1 ≠ ver then err {} else groupCs ie 4 {}

example : rtwRsneInfoParse [48, 8, 1, 0, 0, 0x0f, 0xac, 4, 1, 0] =
    some ({ gcs := some 4 }, true) := by decide

/-- A table of suites: the selector and the number of the bit. -/
abbrev SuiteTable := List (List Byte × ℕ)

/-- The comparisons with the selectors of a table, one after the other. -/
def suiteBit (table : SuiteTable) (s : List Byte) : BitVec 32 :=
  match table.find? fun entry => entry.1 == s with
  | some entry => BitVec.twoPow 32 entry.2
  | none => 0

/-- The comparisons of `rtw_get_rsn_cipher_suite`: `WPA_CIPHER_NONE`, `WEP40`, `TKIP`, `CCMP`,
`GCMP`, `GCMP_256`, `CCMP_256`, `WEP104` and the four BIP ciphers. -/
def rsnCipherSuites : SuiteTable :=
  [([0x00, 0x0f, 0xac, 0], 0), ([0x00, 0x0f, 0xac, 1], 1), ([0x00, 0x0f, 0xac, 2], 3),
    ([0x00, 0x0f, 0xac, 4], 4), ([0x00, 0x0f, 0xac, 8], 5), ([0x00, 0x0f, 0xac, 9], 6),
    ([0x00, 0x0f, 0xac, 10], 7), ([0x00, 0x0f, 0xac, 5], 2), ([0x00, 0x0f, 0xac, 6], 8),
    ([0x00, 0x0f, 0xac, 11], 9), ([0x00, 0x0f, 0xac, 12], 10), ([0x00, 0x0f, 0xac, 13], 11)]

/-- The comparisons of `rtw_get_akm_suite_bitmap`. -/
def akmSuites : SuiteTable :=
  [([0x00, 0x0f, 0xac, 1], 0), ([0x00, 0x0f, 0xac, 2], 1), ([0x00, 0x0f, 0xac, 3], 2),
    ([0x00, 0x0f, 0xac, 4], 3), ([0x00, 0x0f, 0xac, 5], 4), ([0x00, 0x0f, 0xac, 6], 5),
    ([0x00, 0x0f, 0xac, 7], 6), ([0x00, 0x0f, 0xac, 8], 7), ([0x00, 0x0f, 0xac, 9], 8),
    ([0x00, 0x0f, 0xac, 11], 9), ([0x00, 0x0f, 0xac, 12], 10), ([0x00, 0x0f, 0xac, 14], 11),
    ([0x00, 0x0f, 0xac, 15], 12), ([0x00, 0x0f, 0xac, 16], 13), ([0x00, 0x0f, 0xac, 17], 14)]

/-- `rtw_get_rsn_cipher_suite`. -/
def rtwGetRsnCipherSuite (ie : List Byte) (s : ℕ) : Option (BitVec 32) :=
  (load ie s 4).map (suiteBit rsnCipherSuites)

/-- `rtw_get_akm_suite_bitmap`. -/
def rtwGetAkmSuiteBitmap (ie : List Byte) (s : ℕ) : Option (BitVec 32) :=
  (load ie s 4).map (suiteBit akmSuites)

/-- The loop over a list of suites, `if (list) for (i = 0; i < cnt; i++) bits |= ...`. -/
def suiteLoop (bit : ℕ → Option (BitVec 32)) (list : Option ℕ) (cnt : ℕ) : Option (BitVec 32) :=
  match list with
  | none => some 0
  | some list => (List.range cnt).foldlM (fun bits i => (bit (list + 4 * i)).map (bits ||| ·)) 0

/-- The values behind the pointers that `rtw_parse_wpa2_ie` is given; `none` is `NULL`. -/
structure Wpa2Out where
  groupCipher : Option (BitVec 32)
  pairwiseCipher : Option (BitVec 32)
  gmcs : Option (BitVec 32)
  akm : Option (BitVec 32)
  mfpOpt : Option ℕ
  deriving DecidableEq, Repr

/-- `if (p) *p = v`. -/
def store {α : Type} (p : Option α) (v : Option α) : Option (Option α) :=
  match p with
  | none => some none
  | some _ => v.map some

/-- `WPA_CIPHER_BIP_CMAC_128`. -/
def wpaCipherBipCmac128 : BitVec 32 := BitVec.twoPow 32 8

/-- `rtw_parse_wpa2_ie`. -/
def rtwParseWpa2Ie (rsn_ie : List Byte) (out : Wpa2Out) : Option (Wpa2Out × Bool) := do
  let (info, ret) ← rtwRsneInfoParse rsn_ie
  if !ret then some (out, false)
  else
    let groupCipher ← store out.groupCipher (info.gcs.elim (some 0) (rtwGetRsnCipherSuite rsn_ie))
    let pairwiseCipher ←
      store out.pairwiseCipher (suiteLoop (rtwGetRsnCipherSuite rsn_ie) info.pcsList info.pcsCnt)
    let gmcs ← store out.gmcs
      (info.gmcs.elim (some wpaCipherBipCmac128) (rtwGetRsnCipherSuite rsn_ie))
    let akm ← store out.akm (suiteLoop (rtwGetAkmSuiteBitmap rsn_ie) info.akmList info.akmCnt)
    -- `GET_RSN_CAP_MFP_OPTION`: two bits from bit 6 on
    let mfpOpt ← store out.mfpOpt
      (info.cap.elim (some 0) fun cap => (getLe16 rsn_ie cap).map fun v => v / 64 % 4)
    some (⟨groupCipher, pairwiseCipher, gmcs, akm, mfpOpt⟩, true)

/-! ## RSN elements -/

/-- A field of `n` bytes that may be missing, and what is behind it. -/
abbrev Field (n : ℕ) (α : Type) := Option (Vector Byte n × α)

/-- A list of suites that may be missing, with its count or behind it. -/
inductive Suites (α : Type) where
  | absent
  | count (n : ℕ) (hpos : 0 < n) (hlt : n < 65536)
  | list (suites : List (Vector Byte 4)) (rest : α)

/-- The group management suite, and further bytes. -/
abbrev GroupMgmtCs := Field 4 (List Byte)

/-- The list of PMKIDs, and what is behind it. -/
abbrev Pmkids := Option (List (Vector Byte 16) × GroupMgmtCs)

/-- The capabilities, and what is behind them. -/
abbrev RsnCap := Field 2 Pmkids

/-- The AKM suites, and what is behind them. -/
abbrev Akm := Suites RsnCap

/-- The pairwise suites, and what is behind them. -/
abbrev PairwiseCs := Suites Akm

/-- The group suite, and what is behind it: all that an element has behind its version. -/
abbrev GroupCs := Field 4 PairwiseCs

section Bytes

variable {α : Type} {n : ℕ}

/-- The bytes of a list. -/
def flat (vs : List (Vector Byte n)) : List Byte := vs.flatMap Vector.toList

def Field.bytes (rest : α → List Byte) : Field n α → List Byte
  | none => []
  | some (v, x) => v.toList ++ rest x

def Suites.bytes (rest : α → List Byte) : Suites α → List Byte
  | .absent => []
  | .count n _ _ => le 2 n
  | .list suites x => le 2 suites.length ++ (flat suites ++ rest x)

def Pmkids.bytes : Pmkids → List Byte
  | none => []
  | some (ids, x) => le 2 ids.length ++ (flat ids ++ Field.bytes id x)

def GroupCs.bytes : GroupCs → List Byte :=
  Field.bytes (Suites.bytes (Suites.bytes (Field.bytes Pmkids.bytes)))

/-- The RSN element of version 1. -/
def rsnElem (g : GroupCs) : List Byte :=
  wlanEidRsn :: BitVec.ofNat 8 (2 + g.bytes.length) :: 1 :: 0 :: g.bytes

end Bytes

/-! ## The parts of the parser -/

section Parts

variable {α : Type} {n : ℕ}

/-- What a part of the parser finds from `pos` on, and how it changes what is stored. -/
abbrev Den (α : Type) := List Byte → ℕ → α → RsneInfo → RsneInfo → Prop

/-- A part of the parser accepts exactly the bytes of a part of the element, up to the end of the
element, and stores what `den` says. -/
structure Reads (parse : List Byte → ℕ → RsneInfo → Parse) (bytes : α → List Byte) (den : Den α) :
    Prop where
  accepts : ∀ (a : List Byte) x info, (bytes x).length ≤ 255 →
    ∃ info', parse (a ++ bytes x) a.length info = some (info', true) ∧
      den (a ++ bytes x) a.length x info info'
  rejects : ∀ (a b : List Byte) info,
    (∃ x, b = bytes x) ∨ ∃ info', parse (a ++ b) a.length info = some (info', false)

def Field.Den (set : RsneInfo → ℕ → RsneInfo) (next : Den α) : Den (Field n α) :=
  fun ie pos x info info' =>
    match x with
    | none => info' = info
    | some (v, x) => load ie pos n = some v.toList ∧ next ie (pos + n) x (set info pos) info'

/-- The end of the element. -/
theorem cutOff_end (a : List Byte) (info : RsneInfo) :
    cutOff (a ++ []) a.length info = some (info, true) := by
  rw [cutOff, List.append_nil, if_neg (by simp)]
  rfl

/-- A rest of the element that is too short. -/
theorem cutOff_of_ne {a b : List Byte} (hb : b ≠ []) (info : RsneInfo) :
    cutOff (a ++ b) a.length info = some ({ info with err := true }, false) := by
  rw [cutOff, if_pos (by simpa using hb)]
  rfl

/-- Enough bytes for a field. -/
theorem exists_vector {b : List Byte} (h : n ≤ b.length) :
    ∃ (v : Vector Byte n) (b' : List Byte), b = v.toList ++ b' := by
  refine ⟨⟨(b.take n).toArray, by simp [h]⟩, b.drop n, ?_⟩
  exact (List.take_append_drop n b).symm

/-- Enough bytes for a list. -/
theorem exists_flat {b : List Byte} (c : ℕ) (h : n * c ≤ b.length) :
    ∃ (vs : List (Vector Byte n)) (b' : List Byte), vs.length = c ∧ b = flat vs ++ b' := by
  induction c generalizing b with
  | zero => exact ⟨[], b, rfl, rfl⟩
  | succ c ih =>
    rw [Nat.mul_succ] at h
    obtain ⟨v, b₁, rfl⟩ := exists_vector (n := n) (b := b) (by omega)
    rw [List.length_append, Vector.length_toList] at h
    obtain ⟨vs, b₂, hvs, rfl⟩ := ih (b := b₁) (by omega)
    refine ⟨v :: vs, b₂, by rw [List.length_cons, hvs], ?_⟩
    exact (List.append_assoc _ _ _).symm

@[simp]
theorem length_flat (vs : List (Vector Byte n)) : (flat vs).length = n * vs.length := by
  induction vs with
  | nil => rfl
  | cons v vs ih =>
    rw [flat, List.flatMap_cons, List.length_append, Vector.length_toList, List.length_cons,
      Nat.mul_succ, Nat.add_comm]
    exact congrArg (· + n) ih

/-- A count is read back. -/
theorem getLe16_le {cnt : ℕ} (h : cnt < 65536) (a r : List Byte) :
    getLe16 (a ++ (le 2 cnt ++ r)) a.length = some cnt := by
  rw [le, le, le, List.cons_append, List.cons_append, List.nil_append, getLe16_append,
    BitVec.toNat_ofNat, BitVec.toNat_ofNat]
  congr 1
  omega

/-- Two bytes are a count. -/
theorem exists_count {b : List Byte} (h : 2 ≤ b.length) :
    ∃ cnt < 65536, ∃ b', b = le 2 cnt ++ b' := by
  rcases b with _ | ⟨b0, _ | ⟨b1, b⟩⟩
  · contradiction
  · contradiction
  · refine ⟨b1.toNat * 256 + b0.toNat, by omega, b, ?_⟩
    have h0 : BitVec.ofNat 8 (b1.toNat * 256 + b0.toNat) = b0 := by
      apply BitVec.eq_of_toNat_eq
      rw [BitVec.toNat_ofNat]
      omega
    have h1 : BitVec.ofNat 8 ((b1.toNat * 256 + b0.toNat) / 256) = b1 := by
      apply BitVec.eq_of_toNat_eq
      rw [BitVec.toNat_ofNat]
      omega
    rw [le, le, le, h0, h1]
    rfl

theorem Reads.field {next : List Byte → ℕ → RsneInfo → Parse} {bytes : α → List Byte} {den : Den α}
    (h : Reads next bytes den) (hn : 0 < n) (set : RsneInfo → ℕ → RsneInfo) :
    Reads (Rsne.field n set next) (Field.bytes bytes) (Field.Den (n := n) set den) where
  accepts a x info hx := by
    rcases x with _ | ⟨v, y⟩
    · refine ⟨info, ?_, rfl⟩
      rw [Rsne.field, if_pos (by simp [Field.bytes, hn])]
      exact cutOff_end a info
    · rw [Field.bytes, List.length_append, Vector.length_toList] at hx
      obtain ⟨info', hinfo', hden⟩ := h.accepts (a ++ v.toList) y (set info a.length) (by omega)
      rw [List.length_append, Vector.length_toList, List.append_assoc] at hinfo' hden
      refine ⟨info', ?_, load_middle rfl v.length_toList, hden⟩
      rw [Rsne.field, if_neg (by simp [Field.bytes])]
      exact hinfo'
  rejects a b info := by
    by_cases hb : b.length < n
    · by_cases hnil : b = []
      · exact .inl ⟨none, hnil⟩
      · refine .inr ⟨{ info with err := true }, ?_⟩
        rw [Rsne.field, if_pos (by rw [List.length_append]; omega), cutOff_of_ne hnil]
    · obtain ⟨v, b', rfl⟩ := exists_vector (n := n) (b := b) (by omega)
      rcases h.rejects (a ++ v.toList) b' (set info a.length) with ⟨y, rfl⟩ | ⟨info', hinfo'⟩
      · exact .inl ⟨some (v, y), rfl⟩
      · rw [List.length_append, Vector.length_toList, List.append_assoc] at hinfo'
        refine .inr ⟨info', ?_⟩
        rw [Rsne.field, if_neg (by rw [List.length_append]; omega), hinfo']

def Suites.Den (set : RsneInfo → ℕ → ℕ → RsneInfo) (next : Den α) : Den (Suites α) :=
  fun ie pos x info info' =>
    match x with
    | .absent => info' = info
    | .count _ _ _ => info' = info
    | .list suites x =>
      load ie (pos + 2) (4 * suites.length) = some (flat suites) ∧
        next ie (pos + 2 + 4 * suites.length) x (set info suites.length (pos + 2)) info'

theorem Reads.suiteList {next : List Byte → ℕ → RsneInfo → Parse} {bytes : α → List Byte}
    {den : Den α} (h : Reads next bytes den) (set : RsneInfo → ℕ → ℕ → RsneInfo) :
    Reads (Rsne.suiteList set next) (Suites.bytes bytes) (Suites.Den set den) where
  accepts a x info hx := by
    rcases x with _ | ⟨cnt, hpos, hlt⟩ | ⟨suites, y⟩
    · refine ⟨info, ?_, rfl⟩
      rw [Rsne.suiteList, if_pos (by simp [Suites.bytes])]
      exact cutOff_end a info
    · refine ⟨info, ?_, rfl⟩
      have hcnt := getLe16_le hlt a []
      rw [List.append_nil] at hcnt
      rw [Suites.bytes, Rsne.suiteList, if_neg (by simp), hcnt, Option.bind_eq_bind,
        Option.bind_some, if_pos (by simpa using hpos)]
      have hend := cutOff_end (a ++ le 2 cnt) info
      rwa [List.append_nil, List.length_append, length_le] at hend
    · rw [Suites.bytes, List.length_append, List.length_append, length_le, length_flat] at hx
      obtain ⟨info', hinfo', hden⟩ := h.accepts (a ++ (le 2 suites.length ++ flat suites)) y
        (set info suites.length (a.length + 2)) (by omega)
      simp only [List.length_append, length_le, length_flat, List.append_assoc, ← Nat.add_assoc]
        at hinfo' hden
      refine ⟨info', ?_, ?_, hden⟩
      · have hcnt : ¬ (a ++ (le 2 suites.length ++ (flat suites ++ bytes y))).length <
            a.length + 2 := by
          simp only [List.length_append, length_le]
          omega
        rw [Suites.bytes, Rsne.suiteList, if_neg hcnt, getLe16_le (by omega),
          Option.bind_eq_bind, Option.bind_some, if_neg (by simp; omega), hinfo']
      · rw [Suites.bytes, ← List.append_assoc]
        exact load_middle (by rw [List.length_append, length_le]) (length_flat suites)
  rejects a b info := by
    by_cases hb : b.length < 2
    · by_cases hnil : b = []
      · exact .inl ⟨.absent, hnil⟩
      · refine .inr ⟨{ info with err := true }, ?_⟩
        rw [Rsne.suiteList, if_pos (by rw [List.length_append]; omega), cutOff_of_ne hnil]
    · obtain ⟨cnt, hcnt, b', rfl⟩ := exists_count (Nat.not_lt.mp hb)
      have hpos : (a ++ le 2 cnt).length = a.length + 2 := by
        rw [List.length_append, length_le]
      have hparse : Rsne.suiteList set next (a ++ (le 2 cnt ++ b')) a.length info =
          if b'.length < 4 * cnt then cutOff (a ++ le 2 cnt ++ b') (a ++ le 2 cnt).length info
          else next (a ++ le 2 cnt ++ b') ((a ++ le 2 cnt).length + 4 * cnt)
            (set info cnt (a.length + 2)) := by
        rw [Rsne.suiteList, if_neg (by rw [List.length_append]; omega), getLe16_le hcnt,
          Option.bind_eq_bind, Option.bind_some, List.append_assoc, hpos]
        refine if_congr ?_ rfl rfl
        simp only [List.length_append, length_le]
        omega
      rw [hparse]
      by_cases hb' : b'.length < 4 * cnt
      · rw [if_pos hb']
        by_cases hnil : b' = []
        · subst hnil
          exact .inl ⟨.count cnt (by simpa using hb') hcnt, List.append_nil _⟩
        · exact .inr ⟨_, cutOff_of_ne hnil info⟩
      · rw [if_neg hb']
        obtain ⟨suites, b'', hlen, rfl⟩ := exists_flat (n := 4) (b := b') cnt (Nat.not_lt.mp hb')
        rcases h.rejects (a ++ le 2 cnt ++ flat suites) b'' (set info cnt (a.length + 2)) with
          ⟨y, rfl⟩ | ⟨info', hinfo'⟩
        · exact .inl ⟨.list suites y, by rw [Suites.bytes, hlen]⟩
        · have hpos' : (a ++ le 2 cnt ++ flat suites).length = (a ++ le 2 cnt).length + 4 * cnt := by
            rw [List.length_append, length_flat, hlen]
          rw [hpos', List.append_assoc] at hinfo'
          exact .inr ⟨info', hinfo'⟩

/-- Behind the last field the parser does not look. -/
theorem reads_exit : Reads (fun _ _ => exit) id
    fun ie pos x info info' => info' = info ∧ pos + x.length = ie.length where
  accepts _ _ info _ := ⟨info, rfl, rfl, List.length_append.symm⟩
  rejects _ b _ := .inl ⟨b, rfl⟩

def GroupMgmtCs.Den : Den GroupMgmtCs :=
  Field.Den (fun info pos => { info with gmcs := some pos })
    fun ie pos x info info' => info' = info ∧ pos + x.length = ie.length

theorem reads_groupMgmtCs : Reads groupMgmtCs (Field.bytes id) GroupMgmtCs.Den :=
  reads_exit.field (by decide) _

def Pmkids.Den : Den Pmkids :=
  fun ie pos x info info' =>
    match x with
    | none => info' = info
    | some (ids, x) =>
      load ie (pos + 2) (16 * ids.length) = some (flat ids) ∧
        GroupMgmtCs.Den ie (pos + 2 + 16 * ids.length) x
          { info with pmkidCnt := ids.length, pmkidList := some (pos + 2) } info'

theorem reads_pmkid : Reads pmkid Pmkids.bytes Pmkids.Den where
  accepts a x info hx := by
    rcases x with _ | ⟨ids, y⟩
    · refine ⟨info, ?_, rfl⟩
      rw [pmkid, if_pos (by simp [Pmkids.bytes])]
      exact cutOff_end a info
    · rw [Pmkids.bytes, List.length_append, List.length_append, length_le, length_flat] at hx
      obtain ⟨info', hinfo', hden⟩ := reads_groupMgmtCs.accepts
        (a ++ (le 2 ids.length ++ flat ids)) y
        { info with pmkidCnt := ids.length, pmkidList := some (a.length + 2) } (by omega)
      simp only [List.length_append, length_le, length_flat, List.append_assoc, ← Nat.add_assoc]
        at hinfo' hden
      refine ⟨info', ?_, ?_, hden⟩
      · have hcnt : ¬ (a ++ (le 2 ids.length ++ (flat ids ++ Field.bytes id y))).length <
            a.length + 2 := by
          simp only [List.length_append, length_le]
          omega
        rw [Pmkids.bytes, pmkid, if_neg hcnt, getLe16_le (by omega), Option.bind_eq_bind,
          Option.bind_some, if_neg (by simp; omega), hinfo']
      · rw [Pmkids.bytes, ← List.append_assoc]
        exact load_middle (by rw [List.length_append, length_le]) (length_flat ids)
  rejects a b info := by
    by_cases hb : b.length < 2
    · by_cases hnil : b = []
      · exact .inl ⟨none, hnil⟩
      · refine .inr ⟨{ info with err := true }, ?_⟩
        rw [pmkid, if_pos (by rw [List.length_append]; omega), cutOff_of_ne hnil]
    · obtain ⟨cnt, hcnt, b', rfl⟩ := exists_count (Nat.not_lt.mp hb)
      rw [pmkid, if_neg (by rw [List.length_append]; omega), getLe16_le hcnt, Option.bind_eq_bind,
        Option.bind_some]
      by_cases hb' : b'.length < 16 * cnt
      · exact .inr ⟨{ info with err := true }, if_pos (by simp; omega)⟩
      · rw [if_neg (by simp; omega)]
        obtain ⟨ids, b'', hlen, rfl⟩ := exists_flat (n := 16) (b := b') cnt (Nat.not_lt.mp hb')
        rcases reads_groupMgmtCs.rejects (a ++ (le 2 cnt ++ flat ids)) b''
          { info with pmkidCnt := cnt, pmkidList := some (a.length + 2) } with
          ⟨y, rfl⟩ | ⟨info', hinfo'⟩
        · exact .inl ⟨some (ids, y), by rw [Pmkids.bytes, hlen]⟩
        · simp only [List.length_append, length_le, length_flat, hlen, List.append_assoc,
            ← Nat.add_assoc] at hinfo'
          exact .inr ⟨info', hinfo'⟩

def RsnCap.Den : Den RsnCap :=
  Field.Den (fun info pos => { info with cap := some pos }) Pmkids.Den

def Akm.Den : Den Akm :=
  Suites.Den (fun info cnt pos => { info with akmCnt := cnt, akmList := some pos }) RsnCap.Den

def PairwiseCs.Den : Den PairwiseCs :=
  Suites.Den (fun info cnt pos => { info with pcsCnt := cnt, pcsList := some pos }) Akm.Den

def GroupCs.Den : Den GroupCs :=
  Field.Den (fun info pos => { info with gcs := some pos }) PairwiseCs.Den

theorem reads_groupCs : Reads groupCs GroupCs.bytes GroupCs.Den :=
  (((reads_pmkid.field (by decide) _).suiteList _).suiteList _).field (by decide) _

/-- A whole element is accepted. -/
theorem rtwRsneInfoParse_rsnElem {g : GroupCs} (h : 2 + g.bytes.length ≤ 255) :
    ∃ info, rtwRsneInfoParse (rsnElem g) = some (info, true) ∧
      GroupCs.Den (rsnElem g) 4 g {} info := by
  obtain ⟨info, hinfo, hden⟩ := reads_groupCs.accepts
    [wlanEidRsn, BitVec.ofNat 8 (2 + g.bytes.length), 1, 0] g {} (by omega)
  refine ⟨info, ?_, hden⟩
  have hlen : (BitVec.ofNat 8 (2 + g.bytes.length)).toNat = (rsnElem g).length - 2 := by
    rw [BitVec.toNat_ofNat]
    simp [rsnElem]
    omega
  have hver : getLe16 (rsnElem g) 2 = some 1 := rfl
  rw [rtwRsneInfoParse, if_neg (by simp [rsnElem])]
  change (if wlanEidRsn ≠ wlanEidRsn ∨ _ then _ else _) = _
  rw [if_neg (by simpa using hlen), hver, Option.bind_eq_bind, Option.bind_some, if_neg (by decide)]
  exact hinfo

/-- What is not such an element is rejected. -/
theorem rtwRsneInfoParse_cases (ie : List Byte) :
    (∃ g : GroupCs, 2 + g.bytes.length ≤ 255 ∧ ie = rsnElem g) ∨
      ∃ info, rtwRsneInfoParse ie = some (info, false) := by
  by_cases hshort : ie.length < 4
  · exact .inr ⟨{ err := true }, if_pos hshort⟩
  obtain ⟨b0, b1, b2, b3, b, rfl⟩ : ∃ b0 b1 b2 b3 b, ie = b0 :: b1 :: b2 :: b3 :: b := by
    rcases ie with _ | ⟨b0, _ | ⟨b1, _ | ⟨b2, _ | ⟨b3, b⟩⟩⟩⟩
    case cons.cons.cons.cons => exact ⟨b0, b1, b2, b3, b, rfl⟩
    all_goals simp at hshort
  have hparse : rtwRsneInfoParse (b0 :: b1 :: b2 :: b3 :: b) =
      if b0 ≠ wlanEidRsn ∨ b1.toNat ≠ b.length + 2 then err {}
      else if 1 ≠ b3.toNat * 256 + b2.toNat then err {}
      else groupCs ([b0, b1, b2, b3] ++ b) 4 {} := by
    rw [rtwRsneInfoParse, if_neg hshort]
    rfl
  rw [hparse]
  split
  case isTrue => exact .inr ⟨{ err := true }, rfl⟩
  case isFalse hhead =>
    split
    case isTrue => exact .inr ⟨{ err := true }, rfl⟩
    case isFalse hver =>
      rw [not_or, not_not, not_not] at hhead
      obtain ⟨rfl, hlen⟩ := hhead
      -- the version is 1
      obtain rfl : b3 = 0 := by
        apply BitVec.eq_of_toNat_eq
        change b3.toNat = 0
        omega
      obtain rfl : b2 = 1 := by
        apply BitVec.eq_of_toNat_eq
        change b2.toNat = 1
        change ¬1 ≠ 0 * 256 + b2.toNat at hver
        omega
      rcases reads_groupCs.rejects [wlanEidRsn, b1, 1, 0] b {} with ⟨g, rfl⟩ | hrej
      · refine .inl ⟨g, by omega, ?_⟩
        have hb1 : b1 = BitVec.ofNat 8 (2 + g.bytes.length) := by
          apply BitVec.eq_of_toNat_eq
          rw [BitVec.toNat_ofNat]
          omega
        rw [rsnElem, hb1]
      · exact .inr hrej

end Parts

/-! ## What the pointers denote -/

section Fields

variable (g : GroupCs)

/-- The fields of an element; a list that is missing behind its count is not there. -/
def GroupCs.group : Option (Vector Byte 4) := g.map Prod.fst

def GroupCs.pairwiseCs : PairwiseCs := g.elim .absent Prod.snd

/-- The list of suites. -/
def Suites.suites {α : Type} : Suites α → Option (List (Vector Byte 4))
  | .list suites _ => some suites
  | _ => none

/-- What is behind the list. -/
def Suites.rest {α : Type} (default : α) : Suites α → α
  | .list _ x => x
  | _ => default

def GroupCs.akmCs : Akm := g.pairwiseCs.rest .absent

def GroupCs.rsnCap : RsnCap := g.akmCs.rest none

def GroupCs.pmkids : Pmkids := g.rsnCap.elim none Prod.snd

def GroupCs.groupMgmtCs : GroupMgmtCs := g.pmkids.elim none Prod.snd

/-- The bytes `bs` are in the element, where the pointer points to. -/
def Holds (ie : List Byte) (p : ℕ) (bs : List Byte) : Prop := load ie p bs.length = some bs

/-- Each pointer and count denotes a field of the element. -/
structure Denotes (ie : List Byte) (info : RsneInfo) : Prop where
  gcs : Option.Rel (Holds ie) info.gcs (g.group.map Vector.toList)
  pcsCnt : info.pcsCnt = (g.pairwiseCs.suites.getD []).length
  pcsList : Option.Rel (Holds ie) info.pcsList (g.pairwiseCs.suites.map flat)
  akmCnt : info.akmCnt = (g.akmCs.suites.getD []).length
  akmList : Option.Rel (Holds ie) info.akmList (g.akmCs.suites.map flat)
  cap : Option.Rel (Holds ie) info.cap (g.rsnCap.map fun x => x.1.toList)
  pmkidCnt : info.pmkidCnt = (g.pmkids.elim [] Prod.fst).length
  pmkidList : Option.Rel (Holds ie) info.pmkidList (g.pmkids.map fun x => flat x.1)
  gmcs : Option.Rel (Holds ie) info.gmcs (g.groupMgmtCs.map fun x => x.1.toList)
  /-- What is behind the last field. -/
  further : ∀ x ∈ g.groupMgmtCs, ∀ p ∈ info.gmcs, p + 4 + x.2.length = ie.length

theorem holds_vector {ie : List Byte} {n p : ℕ} {v : Vector Byte n}
    (h : load ie p n = some v.toList) : Holds ie p v.toList := by
  rwa [Holds, v.length_toList]

theorem holds_flat {ie : List Byte} {n p : ℕ} {vs : List (Vector Byte n)}
    (h : load ie p (n * vs.length) = some (flat vs)) : Holds ie p (flat vs) := by
  rwa [Holds, length_flat]

theorem GroupCs.Den.denotes {g : GroupCs} {ie : List Byte} {info : RsneInfo}
    (h : GroupCs.Den ie 4 g {} info) : Denotes g ie info := by
  -- the element is cut off somewhere
  rcases g with _ | ⟨gcs, _ | _ | ⟨pcs, _ | _ | ⟨akms, _ | ⟨cap, _ | ⟨ids, _ | ⟨gmcs, bs⟩⟩⟩⟩⟩⟩
  all_goals
    simp only [GroupCs.Den, PairwiseCs.Den, Akm.Den, RsnCap.Den, Pmkids.Den, GroupMgmtCs.Den,
      Field.Den, Suites.Den] at h
  case' none => subst h
  case' some.absent => obtain ⟨h1, rfl⟩ := h
  case' some.count => obtain ⟨h1, rfl⟩ := h
  case' some.list.absent => obtain ⟨h1, h2, rfl⟩ := h
  case' some.list.count => obtain ⟨h1, h2, rfl⟩ := h
  case' some.list.list.none => obtain ⟨h1, h2, h3, rfl⟩ := h
  case' some.list.list.some.none => obtain ⟨h1, h2, h3, h4, rfl⟩ := h
  case' some.list.list.some.some.none => obtain ⟨h1, h2, h3, h4, h5, rfl⟩ := h
  case' some.list.list.some.some.some => obtain ⟨h1, h2, h3, h4, h5, h6, rfl, hlen⟩ := h
  all_goals constructor
  all_goals first
    | exact .none
    | rfl
    | exact .some (holds_vector ‹_›)
    | exact .some (holds_flat ‹_›)
    | rintro x ⟨⟩ p ⟨⟩
      exact hlen
    | nofun

end Fields

/-! ## The bitmaps -/

section Bitmaps

variable {ie : List Byte} {p : ℕ} {table : SuiteTable}

/-- The bits of `v` are those that the table has for the suites. -/
def Union (table : SuiteTable) (suites : List (Vector Byte 4)) (v : BitVec 32) : Prop :=
  ∀ i, v.getLsbD i = true ↔ ∃ s ∈ suites, (s.toList, i) ∈ table

/-- No selector is in the table twice, and each has a bit of a word. -/
def SuiteTable.Ok (table : SuiteTable) : Prop :=
  (table.map Prod.fst).Nodup ∧ ∀ entry ∈ table, entry.2 < 32

instance : Decidable (SuiteTable.Ok table) := inferInstanceAs (Decidable (_ ∧ _))

/-- The element around bytes that are in it. -/
theorem Holds.split {bs : List Byte} (h : Holds ie p bs) :
    ∃ pre post, pre.length = p ∧ ie = pre ++ (bs ++ post) := by
  rw [Holds, load] at h
  split at h
  case isFalse => cases h
  case isTrue hin =>
    refine ⟨ie.take p, ie.drop (p + bs.length), by rw [List.length_take]; omega, ?_⟩
    have hslice : (ie.drop p).take bs.length = bs := Option.some.inj h
    have hdrop := List.take_append_drop bs.length (ie.drop p)
    rw [hslice, List.drop_drop] at hdrop
    rw [hdrop, List.take_append_drop]

theorem Holds.append {a b : List Byte} (h : Holds ie p (a ++ b)) :
    Holds ie p a ∧ Holds ie (p + a.length) b := by
  obtain ⟨pre, post, rfl, rfl⟩ := h.split
  constructor
  · rw [List.append_assoc]
    exact load_middle rfl rfl
  · rw [List.append_assoc, ← List.append_assoc]
    exact load_middle List.length_append rfl

/-- A selector sets its own bit, if it has one. -/
theorem getLsbD_suiteBit (h : table.Ok) (s : List Byte) (i : ℕ) :
    (suiteBit table s).getLsbD i = true ↔ (s, i) ∈ table := by
  rw [suiteBit]
  split
  case h_1 entry hfind =>
    have hmem := List.mem_of_find?_eq_some hfind
    obtain rfl : entry.1 = s := by simpa using List.find?_some hfind
    rw [BitVec.getLsbD_twoPow, Bool.and_eq_true, decide_eq_true_iff, decide_eq_true_iff]
    constructor
    · rintro ⟨-, rfl⟩
      exact hmem
    · intro hi
      have heq := List.inj_on_of_nodup_map h.1 hmem hi rfl
      exact ⟨h.2 entry hmem, congrArg Prod.snd heq⟩
  case h_2 hfind =>
    rw [List.find?_eq_none] at hfind
    constructor
    · intro hi
      cases BitVec.getLsbD_zero ▸ hi
    · intro hi
      exact absurd (beq_self_eq_true s) (hfind (s, i) hi)

/-- The loop over a list in the element gives the union. -/
theorem suiteLoop_union (h : table.Ok) {suites : List (Vector Byte 4)}
    (hp : Holds ie p (flat suites)) :
    ∃ v, suiteLoop (fun s => (load ie s 4).map (suiteBit table)) (some p) suites.length = some v ∧
      Union table suites v := by
  -- the loop goes forward: its last pass is the one for the last suite
  induction suites using List.reverseRecOn with
  | nil => exact ⟨0, rfl, by simp [Union]⟩
  | append_singleton suites s ih =>
    rw [flat, List.flatMap_append, List.flatMap_singleton] at hp
    obtain ⟨hinit, hlast⟩ := hp.append
    obtain ⟨v, hv, hunion⟩ := ih hinit
    have hload : load ie (p + 4 * suites.length) 4 = some s.toList := by
      rw [Holds, ← flat, length_flat, Vector.length_toList] at hlast
      exact hlast
    refine ⟨v ||| suiteBit table s.toList, ?_, ?_⟩
    · rw [suiteLoop] at hv ⊢
      rw [List.length_append, List.length_singleton, List.range_succ, List.foldlM_append, hv]
      simp only [Option.bind_eq_bind, Option.bind_some, List.foldlM_cons, List.foldlM_nil, hload,
        Option.map_some, Option.pure_def]
    · intro i
      rw [BitVec.getLsbD_or, Bool.or_eq_true, hunion i, getLsbD_suiteBit h]
      simp only [List.mem_append, List.mem_singleton, or_and_right, exists_or, exists_eq_left]

theorem rsnCipherSuites_ok : rsnCipherSuites.Ok := by decide

theorem akmSuites_ok : akmSuites.Ok := by decide

/-- What a list denotes, if there is one. -/
theorem suiteLoop_of_rel (h : table.Ok) {q : Option ℕ} {suites : Option (List (Vector Byte 4))}
    {cnt : ℕ} (hq : Option.Rel (Holds ie) q (suites.map flat))
    (hcnt : cnt = (suites.getD []).length) :
    ∃ v, suiteLoop (fun s => (load ie s 4).map (suiteBit table)) q cnt = some v ∧
      Union table (suites.getD []) v := by
  rcases suites with _ | suites
  · obtain ⟨⟩ := hq
    exact ⟨0, rfl, by simp [Union]⟩
  · obtain ⟨hp⟩ := hq
    subst hcnt
    exact suiteLoop_union h hp

/-- What a single suite denotes, if there is one. -/
theorem cipherSuite_of_rel {q : Option ℕ} {s : Option (Vector Byte 4)} (d : BitVec 32)
    (hq : Option.Rel (Holds ie) q (s.map Vector.toList)) :
    ∃ v, q.elim (some d) (rtwGetRsnCipherSuite ie) = some v ∧
      s.elim (v = d) fun s => Union rsnCipherSuites [s] v := by
  rcases s with _ | s
  · obtain ⟨⟩ := hq
    exact ⟨d, rfl, rfl⟩
  · obtain ⟨hp⟩ := hq
    rw [Holds, Vector.length_toList] at hp
    refine ⟨suiteBit rsnCipherSuites s.toList, ?_, ?_⟩
    · rw [Option.elim_some, rtwGetRsnCipherSuite, hp, Option.map_some]
    · intro i
      rw [getLsbD_suiteBit rsnCipherSuites_ok]
      simp only [List.mem_singleton, exists_eq_left]

/-- `GET_RSN_CAP_MFP_OPTION` of the capabilities, if they are there. -/
theorem mfpOpt_of_rel {q : Option ℕ} {cap : RsnCap}
    (hq : Option.Rel (Holds ie) q (cap.map fun x => x.1.toList)) :
    ∃ v, q.elim (some 0) (fun cap => (getLe16 ie cap).map fun v => v / 64 % 4) = some v ∧
      v = cap.elim 0 fun x => x.1[0].toNat / 64 % 4 := by
  rcases cap with _ | ⟨v, x⟩
  · obtain ⟨⟩ := hq
    exact ⟨0, rfl, rfl⟩
  · obtain ⟨hp⟩ := hq
    obtain ⟨pre, post, rfl, rfl⟩ := hp.split
    have hv : v.toList = [v[0], v[1]] := by
      apply List.ext_getElem
      · rw [v.length_toList]
        rfl
      · rintro (_ | _ | i) hi _
        · rfl
        · rfl
        · rw [v.length_toList] at hi
          omega
    have hget : getLe16 (pre ++ (v.toList ++ post)) pre.length =
        some (v[1].toNat * 256 + v[0].toNat) := by
      rw [hv]
      exact getLe16_append ..
    refine ⟨_, congrArg (Option.map fun v => v / 64 % 4) hget, ?_⟩
    change (v[1].toNat * 256 + v[0].toNat) / 64 % 4 = v[0].toNat / 64 % 4
    omega

/-- The values that `rtw_parse_wpa2_ie` stores, where it is given a pointer. -/
structure Bitmaps (g : GroupCs) (out out' : Wpa2Out) : Prop where
  groupCipher : Option.Rel (fun _ => Union rsnCipherSuites g.group.toList)
    out.groupCipher out'.groupCipher
  pairwiseCipher : Option.Rel (fun _ => Union rsnCipherSuites (g.pairwiseCs.suites.getD []))
    out.pairwiseCipher out'.pairwiseCipher
  gmcs : Option.Rel
    (fun _ v => g.groupMgmtCs.elim (v = wpaCipherBipCmac128)
      fun x => Union rsnCipherSuites [x.1] v)
    out.gmcs out'.gmcs
  akm : Option.Rel (fun _ => Union akmSuites (g.akmCs.suites.getD [])) out.akm out'.akm
  mfpOpt : Option.Rel (fun _ v => v = g.rsnCap.elim 0 fun x => x.1[0].toNat / 64 % 4)
    out.mfpOpt out'.mfpOpt

theorem store_some {α : Type} (p : Option α) (v : α) :
    store p (some v) = some (p.map fun _ => v) := by
  rcases p with _ | p <;> rfl

theorem rel_store {α : Type} {P : α → Prop} (p : Option α) {v : α} (h : P v) :
    Option.Rel (fun _ => P) p (p.map fun _ => v) := by
  rcases p with _ | p
  · exact .none
  · exact .some h

theorem Denotes.bitmaps {g : GroupCs} {info : RsneInfo} (h : Denotes g ie info)
    (hparse : rtwRsneInfoParse ie = some (info, true)) (out : Wpa2Out) :
    ∃ out', rtwParseWpa2Ie ie out = some (out', true) ∧ Bitmaps g out out' := by
  obtain ⟨group, hgroup, hgroup'⟩ := cipherSuite_of_rel 0 h.gcs
  obtain ⟨pairwise, hpairwise, hpairwise'⟩ :=
    suiteLoop_of_rel rsnCipherSuites_ok h.pcsList h.pcsCnt
  obtain ⟨gmcs, hgmcs, hgmcs'⟩ :=
    cipherSuite_of_rel (s := g.groupMgmtCs.map Prod.fst) wpaCipherBipCmac128
      (by rw [Option.map_map]; exact h.gmcs)
  obtain ⟨akm, hakm, hakm'⟩ := suiteLoop_of_rel akmSuites_ok h.akmList h.akmCnt
  obtain ⟨mfp, hmfp, hmfp'⟩ := mfpOpt_of_rel h.cap
  refine ⟨⟨out.groupCipher.map fun _ => group, out.pairwiseCipher.map fun _ => pairwise,
    out.gmcs.map fun _ => gmcs, out.akm.map fun _ => akm, out.mfpOpt.map fun _ => mfp⟩, ?_, ?_⟩
  · have hpairwise : suiteLoop (rtwGetRsnCipherSuite ie) info.pcsList info.pcsCnt = some pairwise :=
      hpairwise
    have hakm : suiteLoop (rtwGetAkmSuiteBitmap ie) info.akmList info.akmCnt = some akm := hakm
    rw [rtwParseWpa2Ie, hparse]
    simp only [Option.bind_eq_bind, Option.bind_some, Bool.not_true, hgroup, hpairwise, hgmcs, hakm,
      hmfp, store_some]
    rfl
  · constructor
    case groupCipher =>
      apply rel_store
      rcases hg : g.group with _ | s
      · rw [hg] at hgroup'
        obtain rfl := hgroup'
        simp [Union]
      · rw [hg] at hgroup'
        exact hgroup'
    case pairwiseCipher => exact rel_store _ hpairwise'
    case gmcs =>
      apply rel_store
      rwa [Option.elim_map] at hgmcs'
    case akm => exact rel_store _ hakm'
    case mfpOpt => exact rel_store _ hmfp'

end Bitmaps

section Main

/-- The parser stays inside the element, and so does `rtw_parse_wpa2_ie`. It accepts what is an
element of version 1 that ends between two fields, behind a count or anywhere behind the group
management suite; then all pointers and counts denote fields of the element, and the bitmaps are the
unions of the suites in them. -/
theorem rsne_ok (ie : List Byte) (out : Wpa2Out) :
    ∃ info ret out', rtwRsneInfoParse ie = some (info, ret) ∧
      rtwParseWpa2Ie ie out = some (out', ret) ∧
      (ret = true ↔ ∃ g : GroupCs, 2 + g.bytes.length ≤ 255 ∧ ie = rsnElem g) ∧
      (ret = false → out' = out) ∧
      ∀ g : GroupCs, 2 + g.bytes.length ≤ 255 → ie = rsnElem g →
        Denotes g ie info ∧ Bitmaps g out out' := by
  rcases rtwRsneInfoParse_cases ie with ⟨g, hlen, rfl⟩ | ⟨info, hrej⟩
  · obtain ⟨info, hparse, hden⟩ := rtwRsneInfoParse_rsnElem hlen
    obtain ⟨out', hwpa2, -⟩ := hden.denotes.bitmaps hparse out
    refine ⟨info, true, out', hparse, hwpa2, iff_of_true rfl ⟨g, hlen, rfl⟩, nofun, ?_⟩
    intro g' hlen' heq
    -- the same bytes may be read as another element, but what is stored is the same
    obtain ⟨info', hparse', hden'⟩ := rtwRsneInfoParse_rsnElem hlen'
    rw [← heq] at hparse' hden'
    obtain ⟨out'', hwpa2', hbits⟩ := hden'.denotes.bitmaps hparse' out
    obtain ⟨rfl, -⟩ := Prod.mk.inj (Option.some.inj (hparse.symm.trans hparse'))
    obtain ⟨rfl, -⟩ := Prod.mk.inj (Option.some.inj (hwpa2.symm.trans hwpa2'))
    exact ⟨hden'.denotes, hbits⟩
  · have hno : ¬∃ g : GroupCs, 2 + g.bytes.length ≤ 255 ∧ ie = rsnElem g := by
      rintro ⟨g, hlen, rfl⟩
      obtain ⟨info', hacc, -⟩ := rtwRsneInfoParse_rsnElem hlen
      cases hrej.symm.trans hacc
    refine ⟨info, false, out, hrej, ?_, iff_of_false nofun hno, fun _ => rfl, ?_⟩
    · rw [rtwParseWpa2Ie, hrej]
      rfl
    · intro g hlen heq
      exact absurd ⟨g, hlen, heq⟩ hno

/-- An element with one byte behind the group management suite. -/
def furtherByte : List Byte :=
  [48, 19, 1, 0, 0x00, 0x0f, 0xac, 4, 0, 0, 0, 0, 0, 0, 0, 0, 0x00, 0x0f, 0xac, 6, 0xff]

/-- It is accepted, and does not end between two fields. -/
theorem furtherByte_accepted :
    (∃ info, rtwRsneInfoParse furtherByte = some (info, true)) ∧
      ¬∃ g : GroupCs, (∀ x ∈ g.groupMgmtCs, x.2 = []) ∧ furtherByte = rsnElem g := by
  have hacc : rtwRsneInfoParse furtherByte =
      some (⟨some 4, 0, some 10, 0, some 12, some 12, 0, some 16, some 16, false⟩, true) := by
    decide
  refine ⟨⟨_, hacc⟩, ?_⟩
  rintro ⟨g, hend, heq⟩
  have hlen : 4 + g.bytes.length = 21 := by
    rw [Nat.add_comm]
    exact (congrArg List.length heq).symm
  obtain ⟨info, hparse, hden⟩ := rtwRsneInfoParse_rsnElem (g := g) (by omega)
  rw [← heq, hacc] at hparse
  obtain ⟨rfl, -⟩ := Prod.mk.inj (Option.some.inj hparse)
  -- there is a group management suite, and no room for it at the end
  have hgmcs := hden.denotes.gmcs
  rcases hx : g.groupMgmtCs with _ | x
  · rw [hx] at hgmcs
    cases hgmcs
  · have h := hden.denotes.further x hx 16 rfl
    rw [hend x hx, ← heq] at h
    contradiction

end Main

end Rtl88x2cu.Ieee80211.Rsne
