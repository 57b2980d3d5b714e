import Rtl88x2cu.Efuse.Parser
import Rtl88x2cu.Lib.Footprint

/-!
# Packages at the end of the log

What the parser makes of a log with packages put at its end. `Parses` is the parser as a relation:
it goes on from any place, and it has one rule for a package and one for the last header. A log
that ends with a package can be gone on with. If it ends with the first byte of a header of two
bytes, the parser leaves `efuse_end` behind that byte, and the next package is taken for the rest
of that header: `Pkg.landing` is the block where its words end up.
-/

namespace Rtl88x2cu.Efuse

open Bytes (Byte)
open Footprint (bytesAt bytesAt_append length_bytesAt)

/-! ## The parser as a relation -/

/-- From the place and the map `s` the parser comes to the end `r`. -/
inductive Parses (sz : Sizes) (conv : Byte → Byte) (phy : Map) : ℕ × Map → ℕ × Map → Prop
  | last {idx e : ℕ} {log : Map} : readHdr phy idx = .last e → Parses sz conv phy (idx, log) (e, log)
  | pkg {s s' r : ℕ × Map} {blkIdx idx : ℕ} {wordEn : Byte} :
      readHdr phy s.1 = .pkg blkIdx wordEn idx → idx < sz.phy - 1 →
      readWords sz conv phy blkIdx wordEn [0, 1, 2, 3] (idx, s.2) = some s' →
      Parses sz conv phy s' r → Parses sz conv phy s r

/-- The parser comes from `s` to `r` by whole packages. -/
inductive Replays (sz : Sizes) (conv : Byte → Byte) (phy : Map) : ℕ × Map → ℕ × Map → Prop
  | refl {s : ℕ × Map} : Replays sz conv phy s s
  | pkg {s s' r : ℕ × Map} {blkIdx idx : ℕ} {wordEn : Byte} :
      readHdr phy s.1 = .pkg blkIdx wordEn idx → idx < sz.phy - 1 →
      readWords sz conv phy blkIdx wordEn [0, 1, 2, 3] (idx, s.2) = some s' →
      Replays sz conv phy s' r → Replays sz conv phy s r

section Parses

variable {sz : Sizes} {conv : Byte → Byte} {phy phy' : Map} {s s' r : ℕ × Map}
  {blkIdx idx e n : ℕ} {wordEn : Byte} {is : List ℕ}

theorem parses_of_parseLoop (h : parseLoop sz conv phy n s = some r) : Parses sz conv phy s r := by
  induction n generalizing s with
  | zero => cases h
  | succ n ih =>
    unfold parseLoop at h
    cases hhdr : readHdr phy s.1 with
    | last e =>
      rw [hhdr] at h
      obtain rfl := Option.some.inj h
      exact .last hhdr
    | pkg blkIdx wordEn idx =>
      rw [hhdr] at h
      obtain ⟨hidx, h⟩ := Option.ite_none_left_eq_some.mp h
      obtain ⟨s', hwords, hrest⟩ := Option.bind_eq_some_iff.mp h
      exact .pkg hhdr (Nat.lt_of_not_le hidx) hwords (ih hrest)

/-- There is enough fuel for the bytes that are left. -/
theorem Parses.parseLoop (h : Parses sz conv phy s r) (hn : sz.phy < s.1 + n) (hn0 : n ≠ 0) :
    parseLoop sz conv phy n s = some r := by
  induction h generalizing n with
  | last hhdr =>
    obtain ⟨n, rfl⟩ := Nat.exists_eq_succ_of_ne_zero hn0
    unfold Efuse.parseLoop
    simp only [hhdr]
  | @pkg s s' r blkIdx idx wordEn hhdr hidx hwords hrest ih =>
    obtain ⟨n, rfl⟩ := Nat.exists_eq_succ_of_ne_zero hn0
    have hlt := readHdr_pkg_lt hhdr
    have hle : idx ≤ s'.1 := readWords_le hwords
    unfold Efuse.parseLoop
    simp only [hhdr]
    rw [if_neg (Nat.not_le_of_lt hidx), hwords]
    exact ih (by omega) (by omega)

theorem parse_eq_some_iff : parse sz conv phy = some r ↔ Parses sz conv phy (0, erased) r :=
  ⟨parses_of_parseLoop, fun h => h.parseLoop (by omega) (by omega)⟩

theorem parses_of_last (h : readHdr phy s.1 = .last e) : Parses sz conv phy s r ↔ r = (e, s.2) := by
  constructor
  · rintro (hhdr | ⟨hhdr, -, -, -⟩)
    · rw [h] at hhdr
      cases hhdr
      rfl
    · rw [h] at hhdr
      cases hhdr
  · rintro rfl
    exact .last h

theorem parses_of_pkg (h : readHdr phy s.1 = .pkg blkIdx wordEn idx) :
    Parses sz conv phy s r ↔ idx < sz.phy - 1 ∧
      ∃ s', readWords sz conv phy blkIdx wordEn [0, 1, 2, 3] (idx, s.2) = some s' ∧
        Parses sz conv phy s' r := by
  constructor
  · rintro (hhdr | ⟨hhdr, hidx, hwords, hrest⟩)
    · rw [h] at hhdr
      cases hhdr
    · rw [h] at hhdr
      cases hhdr
      exact ⟨hidx, _, hwords, hrest⟩
  · rintro ⟨hidx, s', hwords, hrest⟩
    exact .pkg h hidx hwords hrest

theorem le_of_readHdr_last (h : readHdr phy idx = .last e) : idx ≤ e := by
  unfold readHdr at h
  grind

/-- The parser never goes back. -/
theorem Parses.le (h : Parses sz conv phy s r) : s.1 ≤ r.1 := by
  induction h with
  | last hhdr => exact le_of_readHdr_last hhdr
  | pkg hhdr _ hwords _ ih =>
    have hlt := readHdr_pkg_lt hhdr
    have hle := readWords_le hwords
    dsimp only at hle
    omega

/-- A header and the words behind it are the same in two maps with the same bytes in their
places. -/
theorem readHdr_congr (h : readHdr phy n = .pkg blkIdx wordEn idx)
    (hphy : ∀ i < idx, phy' i = phy i) : readHdr phy' n = .pkg blkIdx wordEn idx := by
  have hlt := readHdr_pkg_lt h
  have hn := hphy n hlt
  by_cases hext : phy n &&& 0x1f = 0x0f
  · have hidx : idx = n + 2 := by
      unfold readHdr at h
      grind
    have hn1 := hphy (n + 1) (by omega)
    unfold readHdr at h ⊢
    rwa [hn, hn1]
  · unfold readHdr at h ⊢
    dsimp only at h ⊢
    rw [hn]
    rw [if_neg hext] at h ⊢
    exact h

theorem readWords_congr (h : readWords sz conv phy blkIdx wordEn is s = some s')
    (hphy : ∀ i < s'.1, phy' i = phy i) :
    readWords sz conv phy' blkIdx wordEn is s = some s' := by
  induction is generalizing s with
  | nil => exact h
  | cons i is ih =>
    unfold readWords at h ⊢
    split
    next hi =>
      rw [if_pos hi] at h
      exact ih h
    next hi =>
      rw [if_neg hi] at h
      obtain ⟨heeprom, h⟩ := Option.ite_none_left_eq_some.mp h
      obtain ⟨hfirst, h⟩ := Option.ite_none_left_eq_some.mp h
      obtain ⟨hsecond, h⟩ := Option.ite_none_left_eq_some.mp h
      have hle := readWords_le h
      dsimp only at hle h ⊢
      rw [if_neg heeprom, if_neg hfirst, if_neg hsecond, hphy s.1 (by omega),
        hphy (s.1 + 1) (by omega)]
      exact ih h

theorem Replays.le (h : Replays sz conv phy s r) : s.1 ≤ r.1 := by
  induction h with
  | refl => exact Nat.le_refl _
  | pkg hhdr _ hwords _ ih =>
    have hlt := readHdr_pkg_lt hhdr
    have hle := readWords_le hwords
    dsimp only at hle
    omega

/-- The parser comes by whole packages to a last header. -/
theorem Parses.stops (h : Parses sz conv phy s r) :
    ∃ idx, Replays sz conv phy s (idx, r.2) ∧ readHdr phy idx = .last r.1 := by
  induction h with
  | @last idx _ _ hhdr => exact ⟨idx, .refl, hhdr⟩
  | pkg hhdr hidx hwords _ ih =>
    obtain ⟨idx, hreplays, hlast⟩ := ih
    exact ⟨idx, .pkg hhdr hidx hwords hreplays, hlast⟩

/-- In a map with the same bytes up to there, the parser comes to the same place. -/
theorem Replays.parses_iff (h : Replays sz conv phy s s') (hphy : ∀ i < s'.1, phy' i = phy i) :
    Parses sz conv phy' s r ↔ Parses sz conv phy' s' r := by
  induction h with
  | refl => exact Iff.rfl
  | @pkg s t s' blkIdx idx wordEn hhdr hidx hwords hrest ih =>
    have hlt := readHdr_pkg_lt hhdr
    have hwle : idx ≤ t.1 := readWords_le hwords
    have hle := hrest.le
    have hwords' := readWords_congr hwords fun i hi => hphy i (Nat.lt_of_lt_of_le hi hle)
    rw [parses_of_pkg (readHdr_congr hhdr fun i hi => hphy i (by omega)), hwords', ← ih hphy,
      and_iff_right hidx]
    exact ⟨fun ⟨_, heq, h⟩ => Option.some.inj heq ▸ h, fun h => ⟨_, rfl, h⟩⟩

/-- Behind a last header there is no package. -/
theorem Replays.le_of_last (h : Replays sz conv phy s r) (h' : Replays sz conv phy s s')
    (hlast : readHdr phy r.1 = .last e) : s'.1 ≤ r.1 := by
  induction h with
  | refl =>
    cases h' with
    | refl => exact Nat.le_refl _
    | pkg hhdr =>
      rw [hlast] at hhdr
      cases hhdr
  | pkg hhdr hidx hwords hrest ih =>
    cases h' with
    | refl => exact (Replays.pkg hhdr hidx hwords hrest).le
    | pkg hhdr' _ hwords' hrest' =>
      rw [hhdr] at hhdr'
      cases hhdr'
      rw [hwords] at hwords'
      cases hwords'
      exact ih hrest' hlast

/-- At the end of a log there is an erased byte, and nothing is read. -/
theorem parses_self_iff {log log' : Map} :
    Parses sz conv phy (n, log) (n, log') ↔ phy n = 0xff ∧ log' = log := by
  cases hhdr : readHdr phy n with
  | last e =>
    rw [parses_of_last hhdr, Prod.mk.injEq]
    refine and_congr_left fun _ => ?_
    unfold readHdr at hhdr
    grind
  | pkg blkIdx wordEn idx =>
    have hlt := readHdr_pkg_lt hhdr
    have hne : phy n ≠ 0xff := by
      intro hn
      unfold readHdr at hhdr
      rw [hn] at hhdr
      cases hhdr
    refine iff_of_false (fun h => ?_) fun h => hne h.1
    obtain ⟨-, s', hwords, hrest⟩ := (parses_of_pkg hhdr).mp h
    have hle := readWords_le hwords
    have := hrest.le
    dsimp only at hle this
    omega

end Parses

/-! ## Packages -/

/-- A package: a block, and a nibble with the words of the block it has. -/
structure Pkg where
  blk : ℕ
  en : Byte
  deriving DecidableEq, Repr

namespace Pkg

/-- The header of one byte is for the blocks below 16. -/
def hdr (p : Pkg) : List Byte :=
  let blk := BitVec.ofNat 8 p.blk
  let wordEn := p.en ^^^ 0x0f
  if p.blk < 16 then [(blk <<< 4) + wordEn]
  else [(((blk &&& 0x07) <<< 5) &&& 0xe0) ||| 0x0f, ((blk &&& 0x78) <<< 1) + wordEn]

/-- The bytes of the words `is` of the map `m` that are in the package. -/
def body (p : Pkg) (m : Map) (is : List ℕ) : List Byte :=
  (is.filter p.en.getLsbD).flatMap fun i => [m (8 * p.blk + 2 * i), m (8 * p.blk + 2 * i + 1)]

def bytes (p : Pkg) (m : Map) : List Byte := p.hdr ++ p.body m [0, 1, 2, 3]

/-- The words of the package are stored at the block `blk`. -/
def store (p : Pkg) (m : Map) (blk : ℕ) (log : Map) : Map := fun j =>
  if j / 8 = blk ∧ p.en.getLsbD (j % 8 / 2) then m (8 * p.blk + j % 8) else log j

/-- The byte `j` of the logical map is in a word of the package. -/
def Covers (p : Pkg) (j : ℕ) : Prop := j / 8 = p.blk ∧ p.en.getLsbD (j % 8 / 2)

instance (p : Pkg) (j : ℕ) : Decidable (p.Covers j) := inferInstanceAs (Decidable (_ ∧ _))

/-- The package has a word, it has at most four of them, and its block has a header. -/
structure Valid (p : Pkg) (log : ℕ) : Prop where
  en_lt : p.en < 16#8
  en_ne : p.en ≠ 0
  blk_lt : p.blk < 128
  inside : 8 * p.blk + 8 ≤ log

/-- Where the words of the package are stored if the byte `d` is taken for the first one of its
header: a header of one byte is read as the second one, and of a header of two bytes the second one
is read alone. -/
def landing (d : Byte) (p : Pkg) : ℕ :=
  if p.blk < 16 then 8 * p.blk + (d >>> 5).toNat else p.blk / 8

end Pkg

section Words

variable {sz : Sizes} {phy m log : Map} {p : Pkg} {k blk : ℕ} {wordEn : Byte} {is : List ℕ}

@[simp]
theorem length_body : (p.body m is).length = 2 * (is.filter p.en.getLsbD).length := by
  unfold Pkg.body
  induction is.filter p.en.getLsbD with
  | nil => rfl
  | cons i is ih =>
    rw [List.flatMap_cons, List.length_append, ih, List.length_cons]
    simp only [List.length_cons, List.length_nil]
    omega

theorem body_cons_of_pos {i : ℕ} (hi : p.en.getLsbD i) :
    p.body m (i :: is) = [m (8 * p.blk + 2 * i), m (8 * p.blk + 2 * i + 1)] ++ p.body m is := by
  rw [Pkg.body, List.filter_cons_of_pos hi, List.flatMap_cons]
  rfl

theorem body_cons_of_neg {i : ℕ} (hi : ¬p.en.getLsbD i) : p.body m (i :: is) = p.body m is := by
  rw [Pkg.body, List.filter_cons_of_neg hi]
  rfl

/-- The words `is` of a package have been stored at the block `blk`. -/
def storeWords (p : Pkg) (m : Map) (blk : ℕ) (is : List ℕ) (log : Map) : Map := fun j =>
  if j / 8 = blk ∧ j % 8 / 2 ∈ is ∧ p.en.getLsbD (j % 8 / 2) then m (8 * p.blk + j % 8) else log j

@[simp]
theorem storeWords_nil : storeWords p m blk [] log = log :=
  funext fun _ => if_neg fun h => List.not_mem_nil h.2.1

theorem storeWords_cons_of_neg {i : ℕ} (hi : ¬p.en.getLsbD i) :
    storeWords p m blk (i :: is) log = storeWords p m blk is log := by
  funext j
  unfold storeWords
  by_cases hj : j % 8 / 2 = i
  · rw [hj, if_neg fun h => hi h.2.2, if_neg fun h => hi h.2.2]
  · simp only [List.mem_cons, hj, false_or]

/-- The first word is stored, and then the others. -/
theorem storeWords_cons_of_pos {i : ℕ} (hi : p.en.getLsbD i) (hlt : i < 4) :
    storeWords p m blk is (Function.update
      (Function.update log (8 * blk + 2 * i) (m (8 * p.blk + 2 * i))) (8 * blk + 2 * i + 1)
        (m (8 * p.blk + 2 * i + 1))) = storeWords p m blk (i :: is) log := by
  funext j
  unfold storeWords
  by_cases hj : j / 8 = blk ∧ j % 8 / 2 = i
  · obtain ⟨hblk, hword⟩ := hj
    have hcases : j = 8 * blk + 2 * i ∨ j = 8 * blk + 2 * i + 1 := by omega
    rw [hword, if_pos (show j / 8 = blk ∧ i ∈ i :: is ∧ _ from ⟨hblk, List.mem_cons_self, hi⟩)]
    split
    · rfl
    · rcases hcases with rfl | rfl
      · rw [Function.update_of_ne (by omega), Function.update_self]
        congr 1
        omega
      · rw [Function.update_self]
        congr 1
        omega
  · rw [Function.update_of_ne (by omega), Function.update_of_ne (by omega)]
    refine if_congr ?_ rfl rfl
    simp only [List.mem_cons]
    tauto

/-- The loop over the words of a package, stored at the block `blk`. -/
theorem readWords_body (hen : ∀ i ∈ is, wordEn.getLsbD i = !p.en.getLsbD i)
    (hlt : ∀ i ∈ is, i < 4) (hbytes : bytesAt phy k (p.body m is).length = p.body m is)
    {r : ℕ × Map} :
    readWords sz id phy blk wordEn is (k, log) = some r ↔
      (∀ i ∈ is, p.en.getLsbD i → 8 * blk + 2 * i + 1 ≤ sz.log) ∧
      ((∃ i ∈ is, p.en.getLsbD i) → k + (p.body m is).length ≤ sz.phy) ∧
      r = (k + (p.body m is).length, storeWords p m blk is log) := by
  induction is generalizing k log with
  | nil =>
    unfold readWords
    rw [storeWords_nil, Option.some.injEq]
    refine ⟨fun h => ⟨fun i hi => ?_, fun hsome => ?_, h.symm⟩, fun h => h.2.2.symm⟩
    · cases hi
    · obtain ⟨i, hi, -⟩ := hsome
      cases hi
  | cons i is ih =>
    rw [List.forall_mem_cons] at hen hlt
    unfold readWords
    by_cases hi : p.en.getLsbD i
    · -- the word is in the package
      rw [body_cons_of_pos hi] at hbytes ⊢
      obtain ⟨hword, hrest⟩ := bytesAt_append hbytes
      replace hrest : bytesAt phy (k + 2) (p.body m is).length = p.body m is := hrest
      have hread : [phy k, phy (k + 1)] =
          [m (8 * p.blk + 2 * i), m (8 * p.blk + 2 * i + 1)] := hword
      obtain ⟨hfirst, hread⟩ := List.cons.inj hread
      have hsecond := (List.cons.inj hread).1
      have hnone : ¬(∃ i ∈ is, p.en.getLsbD i = true) → (p.body m is).length = 0 := by
        intro h
        rw [length_body, List.filter_eq_nil_iff.mpr fun i hi hen => h ⟨i, hi, hen⟩]
        rfl
      rw [if_neg (by rw [hen.1, hi]; decide)]
      dsimp only [id]
      rw [hfirst, hsecond, Option.ite_none_left_eq_some, Option.ite_none_left_eq_some,
        Option.ite_none_left_eq_some, ih hen.2 hlt.2 hrest, storeWords_cons_of_pos hi hlt.1,
        List.forall_mem_cons, imp_iff_right hi,
        imp_iff_right (⟨i, List.mem_cons_self, hi⟩ : ∃ j ∈ i :: is, p.en.getLsbD j = true)]
      have hlen : k + ([m (8 * p.blk + 2 * i), m (8 * p.blk + 2 * i + 1)] ++ p.body m is).length =
          k + 2 + (p.body m is).length := by
        rw [List.length_append, ← Nat.add_assoc]
        rfl
      rw [hlen]
      constructor
      · rintro ⟨hlog, -, hphy, hall, hfits, hr⟩
        refine ⟨⟨Nat.not_lt.mp hlog, hall⟩, ?_, hr⟩
        by_cases hsome : ∃ i ∈ is, p.en.getLsbD i = true
        · exact hfits hsome
        · rw [hnone hsome]
          exact Nat.not_lt.mp hphy
      · rintro ⟨⟨hlog, hall⟩, hfits, hr⟩
        exact ⟨Nat.not_lt.mpr hlog, by omega, by omega, hall, fun _ => hfits, hr⟩
    · rw [body_cons_of_neg hi] at hbytes ⊢
      rw [if_pos (by rw [hen.1]; simpa using hi), ih hen.2 hlt.2 hbytes,
        storeWords_cons_of_neg hi, List.forall_mem_cons]
      simp [hi]

theorem storeWords_eq_store : storeWords p m blk [0, 1, 2, 3] log = p.store m blk log := by
  funext j
  have hmem : j % 8 / 2 ∈ [0, 1, 2, 3] := by
    have : j % 8 / 2 < 4 := by omega
    simp only [List.mem_cons, List.not_mem_nil, or_false]
    omega
  exact if_congr (and_congr_right fun _ => and_iff_right hmem) rfl rfl

end Words

/-! ## Headers -/

section Headers

variable {sz : Sizes} {phy m log : Map} {p : Pkg} {k blk : ℕ} {r : ℕ × Map}

theorem readHdr_of_short (hshort : phy k &&& 0x1f ≠ 0x0f) (hne : phy k ≠ 0xff) :
    readHdr phy k = .pkg ((phy k &&& 0xf0) >>> 4).toNat (phy k &&& 0x0f) (k + 1) := by
  unfold readHdr
  dsimp only
  rw [if_neg hshort, if_neg hne]

theorem readHdr_of_long (hlong : phy k &&& 0x1f = 0x0f) (hne : phy (k + 1) ≠ 0xff) :
    readHdr phy k =
      .pkg (((phy (k + 1) &&& 0xf0) >>> 1) ||| ((phy k >>> 5) &&& 0x07)).toNat
        (phy (k + 1) &&& 0x0f) (k + 2) := by
  unfold readHdr
  dsimp only
  rw [if_pos hlong, if_neg hne]

/-- A header of one byte, and the same byte behind the first one `d` of a header of two. -/
theorem short_hdr : ∀ (blk en : Fin 16), en ≠ 0 →
    let hdr := (BitVec.ofNat 8 blk <<< 4) + (BitVec.ofNat 8 en ^^^ 0x0f)
    hdr &&& 0x1f ≠ 0x0f ∧ hdr ≠ 0xff ∧ ((hdr &&& 0xf0) >>> 4).toNat = blk ∧
      hdr &&& 0x0f = BitVec.ofNat 8 en ^^^ 0x0f ∧
      ∀ d : Fin 8, let d := BitVec.ofNat 8 (32 * d + 15)
        (((hdr &&& 0xf0) >>> 1) ||| ((d >>> 5) &&& 0x07)).toNat = 8 * blk + (d >>> 5).toNat := by
  decide +kernel

/-- A header of two bytes, its first byte behind another one, and its second one alone. -/
theorem long_hdr : ∀ (blk : Fin 128) (en : Fin 16), en ≠ 0 →
    let hdr := (((BitVec.ofNat 8 blk &&& 0x07) <<< 5) &&& 0xe0) ||| 0x0f
    let hdr2 := ((BitVec.ofNat 8 blk &&& 0x78) <<< 1) + (BitVec.ofNat 8 en ^^^ 0x0f)
    (hdr &&& 0x1f = 0x0f ∧ hdr ≠ 0xff ∧ hdr &&& 0x0f = 0x0f) ∧
      (hdr2 &&& 0x1f ≠ 0x0f ∧ hdr2 ≠ 0xff ∧ hdr2 &&& 0x0f = BitVec.ofNat 8 en ^^^ 0x0f) ∧
      (((hdr2 &&& 0xf0) >>> 1) ||| ((hdr >>> 5) &&& 0x07)).toNat = blk ∧
      ((hdr2 &&& 0xf0) >>> 4).toNat = blk / 8 := by
  decide +kernel

theorem exists_fin_of_lt {b : Byte} (h : b < 16#8) : ∃ n : Fin 16, b = BitVec.ofNat 8 n :=
  ⟨⟨b.toNat, h⟩, by simp⟩

theorem Pkg.Valid.exists_fin {l : ℕ} (h : p.Valid l) :
    ∃ (blk : Fin 128) (en : Fin 16), en ≠ 0 ∧ p = ⟨blk, BitVec.ofNat 8 en⟩ := by
  obtain ⟨en, hen⟩ := exists_fin_of_lt h.en_lt
  refine ⟨⟨p.blk, h.blk_lt⟩, en, fun h0 => h.en_ne ?_, by rw [← hen]⟩
  rw [hen, h0]
  rfl

theorem Pkg.Valid.exists_word {l : ℕ} (h : p.Valid l) : ∃ i ∈ [0, 1, 2, 3], p.en.getLsbD i = true := by
  have hdec : ∀ en : Fin 16, en ≠ 0 →
      ∃ i ∈ [0, 1, 2, 3], (BitVec.ofNat 8 (en : ℕ)).getLsbD i = true := by decide
  obtain ⟨blk, en, hne, rfl⟩ := h.exists_fin
  exact hdec en hne

theorem Pkg.Valid.two_le_length_body {l : ℕ} (h : p.Valid l) (m : Map) :
    2 ≤ (p.body m [0, 1, 2, 3]).length := by
  obtain ⟨i, hi, hword⟩ := h.exists_word
  have := List.length_pos_of_mem (List.mem_filter.mpr ⟨hi, hword⟩)
  rw [length_body]
  omega

/-- Behind a header for the words of the package, the package is read. -/
theorem parses_of_hdr {start l : ℕ} (hvalid : p.Valid l)
    (hhdr : readHdr phy start = .pkg blk (p.en ^^^ 0x0f) k)
    (hbytes : bytesAt phy k (p.body m [0, 1, 2, 3]).length = p.body m [0, 1, 2, 3]) :
    Parses sz id phy (start, log) r ↔
      (∀ i ∈ [0, 1, 2, 3], p.en.getLsbD i → 8 * blk + 2 * i + 1 ≤ sz.log) ∧
      k + (p.body m [0, 1, 2, 3]).length ≤ sz.phy ∧
      Parses sz id phy (k + (p.body m [0, 1, 2, 3]).length, p.store m blk log) r := by
  have hen : ∀ i ∈ [0, 1, 2, 3], (p.en ^^^ 0x0f).getLsbD i = !p.en.getLsbD i := by
    have hmask : ∀ i ∈ [0, 1, 2, 3], (0x0f : Byte).getLsbD i = true := by decide
    intro i hi
    rw [BitVec.getLsbD_xor, hmask i hi, Bool.xor_true]
  have hlt : ∀ i ∈ [0, 1, 2, 3], i < 4 := by decide
  -- there is a word, so the header is not the last byte
  have hpos := hvalid.two_le_length_body m
  rw [parses_of_pkg hhdr]
  constructor
  · rintro ⟨-, s', hwords, hrest⟩
    obtain ⟨hall, hfits, rfl⟩ := (readWords_body hen hlt hbytes).mp hwords
    rw [storeWords_eq_store] at hrest
    exact ⟨hall, hfits hvalid.exists_word, hrest⟩
  · rintro ⟨hall, hfits, hrest⟩
    refine ⟨by omega, _, (readWords_body hen hlt hbytes).mpr ⟨hall, fun _ => hfits, rfl⟩, ?_⟩
    rwa [storeWords_eq_store]

/-- A package is read where it stands. -/
theorem parses_package (hvalid : p.Valid sz.log)
    (hbytes : bytesAt phy k (p.bytes m).length = p.bytes m) :
    Parses sz id phy (k, log) r ↔ k + (p.bytes m).length ≤ sz.phy ∧
      Parses sz id phy (k + (p.bytes m).length, p.store m p.blk log) r := by
  obtain ⟨hhdr, hbody⟩ := bytesAt_append hbytes
  have hinside : ∀ i ∈ [0, 1, 2, 3], p.en.getLsbD i → 8 * p.blk + 2 * i + 1 ≤ sz.log := by
    have hlt : ∀ i ∈ [0, 1, 2, 3], i < 4 := by decide
    intro i hi _
    have := hvalid.inside
    have := hlt i hi
    omega
  obtain ⟨blk, en, hne, rfl⟩ := hvalid.exists_fin
  have hread : readHdr phy k = .pkg blk (BitVec.ofNat 8 en ^^^ 0x0f)
      (k + (Pkg.hdr ⟨blk, BitVec.ofNat 8 en⟩).length) := by
    unfold Pkg.hdr at hhdr ⊢
    dsimp only at hhdr ⊢
    split
    next hblk =>
      rw [if_pos hblk] at hhdr
      have hphy : phy k = _ := (List.cons.inj (show [phy k] = _ from hhdr)).1
      obtain ⟨hshort, hff, hblkIdx, hwordEn, -⟩ := short_hdr ⟨blk, hblk⟩ en hne
      rw [← hphy] at hshort hff hblkIdx hwordEn
      rw [readHdr_of_short hshort hff, hblkIdx, hwordEn]
      rfl
    next hblk =>
      rw [if_neg hblk] at hhdr
      obtain ⟨hphy, hphy2⟩ := List.cons.inj (show [phy k, phy (k + 1)] = _ from hhdr)
      replace hphy2 := (List.cons.inj hphy2).1
      obtain ⟨⟨hlong, -, -⟩, ⟨-, hff, hwordEn⟩, hblkIdx, -⟩ := long_hdr blk en hne
      rw [← hphy] at hlong hblkIdx
      rw [← hphy2] at hff hwordEn hblkIdx
      rw [readHdr_of_long hlong hff, hblkIdx, hwordEn]
      rfl
  rw [parses_of_hdr hvalid hread hbody, and_iff_right hinside, Pkg.bytes, List.length_append,
    ← Nat.add_assoc]

/-- Behind a byte that is taken for the first one of a header, the words of a package are stored at
another block. -/
theorem parses_package_of_dangling (hvalid : p.Valid sz.log) (hlong : phy k &&& 0x1f = 0x0f)
    (hbytes : bytesAt phy (k + 1) (p.bytes m).length = p.bytes m) :
    Parses sz id phy (k, log) r ↔
      (∀ i ∈ [0, 1, 2, 3], p.en.getLsbD i → 8 * p.landing (phy k) + 2 * i + 1 ≤ sz.log) ∧
      k + 1 + (p.bytes m).length ≤ sz.phy ∧
      Parses sz id phy (k + 1 + (p.bytes m).length, p.store m (p.landing (phy k)) log) r := by
  have hbits : ∀ d : Byte, d &&& 0x1f = 0x0f → ∃ n : Fin 8, d = BitVec.ofNat 8 (32 * n + 15) := by
    decide
  obtain ⟨n, hn⟩ := hbits _ hlong
  obtain ⟨hhdr, hbody⟩ := bytesAt_append hbytes
  rw [Pkg.bytes, List.length_append, ← Nat.add_assoc]
  obtain ⟨blk, en, hne, rfl⟩ := hvalid.exists_fin
  unfold Pkg.hdr Pkg.landing at *
  dsimp only at hhdr hbody ⊢
  by_cases hblk : (blk : ℕ) < 16
  · -- the header is taken for the second byte
    rw [if_pos hblk] at hhdr hbody ⊢
    rw [if_pos hblk]
    have hphy : phy (k + 1) = _ := (List.cons.inj (show [phy (k + 1)] = _ from hhdr)).1
    obtain ⟨-, hff, -, hwordEn, hland⟩ := short_hdr ⟨blk, hblk⟩ en hne
    replace hland := hland n
    rw [← hphy] at hff hwordEn hland
    rw [← hn] at hland
    have hread : readHdr phy k =
        .pkg (8 * blk + (phy k >>> 5).toNat) (BitVec.ofNat 8 en ^^^ 0x0f) (k + 2) := by
      rw [readHdr_of_long hlong hff, hland, hwordEn]
    exact parses_of_hdr hvalid hread hbody
  · -- the first byte of the header is a package without words, and the second one a header
    rw [if_neg hblk] at hhdr hbody ⊢
    rw [if_neg hblk]
    obtain ⟨hphy, hphy2⟩ := List.cons.inj (show [phy (k + 1), phy (k + 1 + 1)] = _ from hhdr)
    replace hphy2 := (List.cons.inj hphy2).1
    obtain ⟨⟨-, hff, hnone⟩, ⟨hshort, hff2, hwordEn⟩, -, hland⟩ := long_hdr blk en hne
    rw [← hphy] at hff hnone
    rw [← hphy2] at hshort hff2 hwordEn hland
    have hread : readHdr phy (k + 2) =
        .pkg (blk / 8) (BitVec.ofNat 8 en ^^^ 0x0f) (k + 3) := by
      rw [readHdr_of_short hshort hff2, hland, hwordEn]
    rw [parses_of_pkg (readHdr_of_long hlong hff), hnone]
    have hrest := @parses_of_hdr sz phy m log ⟨blk, BitVec.ofNat 8 en⟩ (k + 3) (blk / 8) r (k + 2) _
      hvalid hread hbody
    constructor
    · rintro ⟨-, s', hwords, h⟩
      obtain rfl := Option.some.inj hwords
      exact hrest.mp h
    · intro h
      have hfits : k + 3 + (Pkg.body ⟨blk, BitVec.ofNat 8 en⟩ m [0, 1, 2, 3]).length ≤ sz.phy := h.2.1
      have hpos := hvalid.two_le_length_body m
      exact ⟨by omega, _, rfl, hrest.mpr h⟩

end Headers

/-! ## Packages at the end -/

/-- The bytes of packages one behind the other. -/
def encode (m : Map) (ps : List Pkg) : List Byte := ps.flatMap fun p => p.bytes m

/-- The logical map `log` with the words of the packages from `m`. -/
def storeAll (m : Map) (ps : List Pkg) (log : Map) : Map := fun j =>
  if ∃ p ∈ ps, p.Covers j then m j else log j

/-- `bytes` have been written over `phy` from `e` on. -/
def overwrite (phy : Map) (e : ℕ) (bytes : List Byte) : Map := fun k =>
  if e ≤ k then bytes.getD (k - e) (phy k) else phy k

/-- With the byte `d` in front of it, the first package does what it does without: its words are
stored where they belong, or they are stored already and those they are stored over have the same
bytes or are stored afterwards. -/
structure FirstRight (sz : Sizes) (d : Byte) (m log : Map) (p : Pkg) (ps : List Pkg) : Prop where
  inside : ∀ i ∈ [0, 1, 2, 3], p.en.getLsbD i → 8 * p.landing d + 2 * i + 1 ≤ sz.log
  stored : p.landing d = p.blk ∨ (∀ j, p.Covers j → m j = log j) ∧
    ∀ j, j / 8 = p.landing d → p.en.getLsbD (j % 8 / 2) →
      (∃ q ∈ ps, q.Covers j) ∨ m (8 * p.blk + j % 8) = log j

section Append

variable {sz : Sizes} {phy m log : Map} {p : Pkg} {ps : List Pkg} {k e : ℕ} {r : ℕ × Map}
  {bytes : List Byte}

theorem Pkg.store_of_covers {j : ℕ} (h : p.Covers j) : p.store m p.blk log j = m j := by
  have hj : 8 * p.blk + j % 8 = j := by
    have := h.1
    omega
  exact (if_pos h).trans (congrArg m hj)

theorem Pkg.store_of_not {blk j : ℕ} (h : ¬(j / 8 = blk ∧ p.en.getLsbD (j % 8 / 2) = true)) :
    p.store m blk log j = log j := if_neg h

theorem storeAll_of_covers {q : Pkg} {j : ℕ} (hq : q ∈ ps) (h : q.Covers j) :
    storeAll m ps log j = m j := if_pos ⟨q, hq, h⟩

theorem storeAll_of_not {j : ℕ} (h : ¬∃ q ∈ ps, q.Covers j) : storeAll m ps log j = log j :=
  if_neg h

theorem storeAll_cons : storeAll m ps (p.store m p.blk log) = storeAll m (p :: ps) log := by
  funext j
  by_cases hps : ∃ q ∈ ps, q.Covers j
  · obtain ⟨q, hq, hcovers⟩ := hps
    rw [storeAll_of_covers hq hcovers, storeAll_of_covers (List.mem_cons_of_mem _ hq) hcovers]
  · rw [storeAll_of_not hps]
    by_cases hp : p.Covers j
    · rw [Pkg.store_of_covers hp, storeAll_of_covers List.mem_cons_self hp]
    · rw [Pkg.store_of_not hp, storeAll_of_not]
      rintro ⟨q, hq, hcovers⟩
      rcases List.mem_cons.mp hq with rfl | hq
      · exact hp hcovers
      · exact hps ⟨q, hq, hcovers⟩

/-- The first package may be stored at the block `blk`, if its words are not stored again. -/
theorem storeAll_store_iff {blk : ℕ} (hdisj : ∀ q ∈ ps, ∀ j, p.Covers j → ¬q.Covers j) :
    storeAll m ps (p.store m blk log) = storeAll m (p :: ps) log ↔
      blk = p.blk ∨ (∀ j, p.Covers j → m j = log j) ∧
        ∀ j, j / 8 = blk → p.en.getLsbD (j % 8 / 2) →
          (∃ q ∈ ps, q.Covers j) ∨ m (8 * p.blk + j % 8) = log j := by
  by_cases hblk : blk = p.blk
  · rw [hblk]
    exact iff_of_true storeAll_cons (.inl rfl)
  rw [or_iff_right hblk, funext_iff]
  constructor
  · intro h
    constructor
    · intro j hp
      have hps : ¬∃ q ∈ ps, q.Covers j := fun ⟨q, hq, hcovers⟩ => hdisj q hq j hp hcovers
      have hj := h j
      rw [storeAll_of_not hps, storeAll_of_covers List.mem_cons_self hp,
        Pkg.store_of_not fun hb => hblk (hb.1.symm.trans hp.1)] at hj
      exact hj.symm
    · intro j hj hen
      by_cases hps : ∃ q ∈ ps, q.Covers j
      · exact .inl hps
      · have hnot : ¬∃ q ∈ p :: ps, q.Covers j := by
          rintro ⟨q, hq, hcovers⟩
          rcases List.mem_cons.mp hq with rfl | hq
          · exact hblk (hj.symm.trans hcovers.1)
          · exact hps ⟨q, hq, hcovers⟩
        have heq := h j
        rw [storeAll_of_not hps, storeAll_of_not hnot] at heq
        exact .inr ((if_pos ⟨hj, hen⟩).symm.trans heq)
  · rintro ⟨hsame, hover⟩ j
    by_cases hps : ∃ q ∈ ps, q.Covers j
    · obtain ⟨q, hq, hcovers⟩ := hps
      rw [storeAll_of_covers hq hcovers, storeAll_of_covers (List.mem_cons_of_mem _ hq) hcovers]
    · have hstore : p.store m blk log j = log j := by
        by_cases hj : j / 8 = blk ∧ p.en.getLsbD (j % 8 / 2) = true
        · exact (if_pos hj).trans ((hover j hj.1 hj.2).resolve_left hps)
        · exact Pkg.store_of_not hj
      rw [storeAll_of_not hps, hstore]
      by_cases hp : p.Covers j
      · rw [storeAll_of_covers List.mem_cons_self hp, hsame j hp]
      · rw [storeAll_of_not]
        rintro ⟨q, hq, hcovers⟩
        rcases List.mem_cons.mp hq with rfl | hq
        · exact hp hcovers
        · exact hps ⟨q, hq, hcovers⟩

theorem parses_packages (hvalid : ∀ p ∈ ps, p.Valid sz.log)
    (hbytes : bytesAt phy k (encode m ps).length = encode m ps) :
    Parses sz id phy (k, log) r ↔ (ps ≠ [] → k + (encode m ps).length ≤ sz.phy) ∧
      Parses sz id phy (k + (encode m ps).length, storeAll m ps log) r := by
  induction ps generalizing k log with
  | nil =>
    have hnil : storeAll m [] log = log := funext fun j => if_neg (by simp)
    rw [hnil]
    exact (and_iff_right fun h => absurd rfl h).symm
  | cons p ps ih =>
    rw [List.forall_mem_cons] at hvalid
    obtain ⟨hfirst, hrest⟩ := bytesAt_append hbytes
    have hlen : k + (encode m (p :: ps)).length = k + (p.bytes m).length + (encode m ps).length := by
      rw [encode, List.flatMap_cons, List.length_append, ← Nat.add_assoc]
      rfl
    rw [parses_package hvalid.1 hfirst, ih hvalid.2 hrest, storeAll_cons, hlen, ← and_assoc]
    refine and_congr_left fun _ => ⟨fun h _ => ?_, fun h => ?_⟩
    · by_cases hps : ps = []
      · rw [hps]
        exact h.1
      · exact h.2 hps
    · exact ⟨Nat.le_trans (Nat.le_add_right _ _) (h (List.cons_ne_nil _ _)),
        fun _ => h (List.cons_ne_nil _ _)⟩

theorem overwrite_of_lt (h : k < e) : overwrite phy e bytes k = phy k :=
  if_neg (Nat.not_le_of_lt h)

theorem overwrite_behind (phy : Map) (e : ℕ) (bytes : List Byte) :
    overwrite phy e bytes (e + bytes.length) = phy (e + bytes.length) := by
  rw [overwrite, if_pos (Nat.le_add_right _ _), Nat.add_sub_cancel_left]
  simp

theorem bytesAt_overwrite (phy : Map) (e : ℕ) (bytes : List Byte) :
    bytesAt (overwrite phy e bytes) e bytes.length = bytes := by
  refine List.ext_getElem (length_bytesAt _ _ _) fun i hi hi' => ?_
  simp [bytesAt, overwrite, hi']

/-- Behind a package, the packages are read if they fit and the byte behind them is erased. -/
theorem parse_overwrite_iff (hvalid : ∀ p ∈ ps, p.Valid sz.log) (hps : ps ≠ [])
    (hlog : Replays sz id phy (0, erased) (e, log)) :
    parse sz id (overwrite phy e (encode m ps)) =
        some (e + (encode m ps).length, storeAll m ps log) ↔
      e + (encode m ps).length ≤ sz.phy ∧ phy (e + (encode m ps).length) = 0xff := by
  rw [parse_eq_some_iff, hlog.parses_iff fun i hi => overwrite_of_lt hi,
    parses_packages hvalid (bytesAt_overwrite phy e _), parses_self_iff, overwrite_behind,
    and_iff_left rfl]
  exact and_congr_left fun _ => ⟨fun h => h hps, fun h _ => h⟩

/-- Behind the first byte of a header, the first package has to be right with this byte too. -/
theorem parse_overwrite_dangling_iff (hvalid : ∀ q ∈ p :: ps, q.Valid sz.log)
    (hdisj : ∀ q ∈ ps, ∀ j, p.Covers j → ¬q.Covers j)
    (hlog : Replays sz id phy (0, erased) (k, log)) (hlong : phy k &&& 0x1f = 0x0f) :
    parse sz id (overwrite phy (k + 1) (encode m (p :: ps))) =
        some (k + 1 + (encode m (p :: ps)).length, storeAll m (p :: ps) log) ↔
      k + 1 + (encode m (p :: ps)).length ≤ sz.phy ∧
      phy (k + 1 + (encode m (p :: ps)).length) = 0xff ∧ FirstRight sz (phy k) m log p ps := by
  rw [List.forall_mem_cons] at hvalid
  have hk : overwrite phy (k + 1) (encode m (p :: ps)) k = phy k :=
    overwrite_of_lt (Nat.lt_succ_self k)
  obtain ⟨hfirst, hrest⟩ :=
    bytesAt_append (bytesAt_overwrite phy (k + 1) (encode m (p :: ps)))
  have hlen : k + 1 + (encode m (p :: ps)).length =
      k + 1 + (p.bytes m).length + (encode m ps).length := by
    rw [encode, List.flatMap_cons, List.length_append, ← Nat.add_assoc]
    rfl
  rw [parse_eq_some_iff,
    hlog.parses_iff fun i hi => overwrite_of_lt (Nat.lt_succ_of_lt hi),
    parses_package_of_dangling hvalid.1 (by rw [hk]; exact hlong) hfirst,
    parses_packages hvalid.2 hrest]
  rw [← hlen, hk, parses_self_iff, overwrite_behind, eq_comm (b := storeAll m ps _),
    storeAll_store_iff hdisj]
  constructor
  · rintro ⟨hinside, hfits, hall, hff, hstored⟩
    refine ⟨?_, hff, hinside, hstored⟩
    by_cases hps : ps = []
    · rw [hlen, hps]
      exact hfits
    · exact hall hps
  · rintro ⟨hall, hff, hinside, hstored⟩
    exact ⟨hinside, by omega, fun _ => hall, hff, hstored⟩

end Append

end Rtl88x2cu.Efuse
