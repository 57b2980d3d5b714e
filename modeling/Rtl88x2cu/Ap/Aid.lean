import Mathlib.Algebra.Order.Ring.Nat
import Mathlib.Data.Set.Card
import Rtl88x2cu.Lib.CyclicIndex
import Rtl88x2cu.Lib.Run

/-!
# Association identifiers

An access point gives each station that associates an AID, the first free one in a cyclic scan of
`sta_aid` from `started_aid` (`rtw_aid_alloc` in `core/rtw_sta_mgt.c`), and takes it back when the
station is released. With round-robin selection every allocation moves `started_aid` on.

`run_aids_ok` says what holds in every run: the table and the AIDs of the stations agree, and an
allocation is only refused for a reason. `run_assoc_limit_iff` is about the limit `max_num_sta`,
which the scan checks against the AIDs it has met before a free one.
-/

namespace Rtl88x2cu.Ap

/-! ## Model -/

/-- `max_aid` and `max_num_sta`. -/
structure AidCfg where
  maxAid : ℕ
  maxNumSta : ℕ

/-- The fields of `struct sta_priv` for the AIDs, and `cmn.aid` of the stations. -/
structure AidCtl where
  /-- `sta_aid[i]`, the station with the AID `i + 1`. -/
  staAid : ℕ → Option ℕ
  startedAid : ℕ
  rrAid : Bool
  aid : ℕ → ℕ
  /-- The stations that are not in `free_sta_queue`. -/
  live : ℕ → Bool

/-- `_rtw_init_sta_priv`. -/
def initStaPriv : AidCtl where
  staAid := fun _ => none
  startedAid := 1
  rrAid := false
  aid := fun _ => 0
  live := fun _ => false

/-- The loop of `rtw_aid_alloc` for the last `fuel` values of `i`; it ends with `i`, `aid` and
`used_cnt`. -/
def aidLoop (cfg : AidCfg) (s : AidCtl) : ℕ → ℕ → ℕ → ℕ → ℕ × ℕ × ℕ
  | 0, i, aid, usedCnt => (i, aid, usedCnt)
  | fuel + 1, i, _, usedCnt =>
    let aid := (i + s.startedAid - 1) % cfg.maxAid + 1
    if s.staAid (aid - 1) = none then (i, aid, usedCnt)
    else if usedCnt + 1 ≥ cfg.maxNumSta then (i, aid, usedCnt + 1)
    else aidLoop cfg s fuel (i + 1) aid (usedCnt + 1)

/-- The AID that `rtw_aid_alloc` returns. -/
def pickAid (cfg : AidCfg) (s : AidCtl) : ℕ :=
  let (i, aid, usedCnt) := aidLoop cfg s cfg.maxAid 0 0 0
  if i ≥ cfg.maxAid ∨ usedCnt ≥ cfg.maxNumSta then 0 else aid

/-- `rtw_aid_alloc`. -/
def rtwAidAlloc (cfg : AidCfg) (s : AidCtl) (sta : ℕ) : ℕ × AidCtl :=
  let aid := pickAid cfg s
  if aid ≠ 0 then
    (aid, { s with
      aid := Function.update s.aid sta aid
      staAid := Function.update s.staAid (aid - 1) (some sta)
      startedAid := if s.rrAid then aid % cfg.maxAid + 1 else s.startedAid })
  else
    (aid, { s with aid := Function.update s.aid sta aid })

/-- The AID assignment of `OnAssocReq`. -/
def aidAssignment (cfg : AidCfg) (s : AidCtl) (sta : ℕ) : AidCtl :=
  if s.aid sta > 0 then s else (rtwAidAlloc cfg s sta).2

/-- `rtw_free_stainfo` for an interface in the state `_HW_STATE_AP_`. -/
def rtwFreeStainfo (s : AidCtl) (sta : ℕ) : AidCtl :=
  let s := if s.aid sta > 0 ∧ s.staAid (s.aid sta - 1) = some sta then
      { s with
        staAid := Function.update s.staAid (s.aid sta - 1) none
        aid := Function.update s.aid sta 0 }
    else s
  { s with live := Function.update s.live sta false }

/-- `proc_set_aid_status`. -/
def procSetAidStatus (cfg : AidCfg) (s : AidCtl) (rr : Bool) (startedAid : Option ℕ) : AidCtl :=
  match startedAid with
  | none => { s with rrAid := rr }
  | some startedAid =>
    let startedAid := startedAid % (cfg.maxAid + 1)
    { s with rrAid := rr, startedAid := if startedAid ≠ 0 then startedAid else 1 }

inductive AidEvent where
  /-- `rtw_alloc_stainfo`. -/
  | alloc (sta : ℕ)
  | assoc (sta : ℕ)
  | free (sta : ℕ)
  | procSet (rr : Bool) (startedAid : Option ℕ)
  deriving DecidableEq

/-- One event; `none` if a station is allocated that is not free, or used that is not allocated. -/
def aidStep (cfg : AidCfg) (s : AidCtl) : AidEvent → Option AidCtl
  | .alloc sta =>
    if s.live sta then none
    else some { s with
      live := Function.update s.live sta true
      aid := Function.update s.aid sta 0 }
  | .assoc sta => if s.live sta then some (aidAssignment cfg s sta) else none
  | .free sta => if s.live sta then some (rtwFreeStainfo s sta) else none
  | .procSet rr startedAid => some (procSetAidStatus cfg s rr startedAid)

/-! ## The scan -/

variable {cfg : AidCfg} {s s' : AidCtl} {sta : ℕ}

/-- The `i`-th index of `sta_aid` that the scan looks at. -/
def scanned (cfg : AidCfg) (s : AidCtl) (i : ℕ) : ℕ := (i + s.startedAid - 1) % cfg.maxAid

/-- The AID a loop has ended with. -/
def verdict (cfg : AidCfg) (r : ℕ × ℕ × ℕ) : ℕ :=
  if r.1 ≥ cfg.maxAid ∨ r.2.2 ≥ cfg.maxNumSta then 0 else r.2.1

/-- The scan is refused: all the AIDs it may look at are in use. -/
def Refused (cfg : AidCfg) (s : AidCtl) : Prop :=
  ∀ i < cfg.maxAid, i < cfg.maxNumSta → s.staAid (scanned cfg s i) ≠ none

instance (cfg : AidCfg) (s : AidCtl) : Decidable (Refused cfg s) :=
  decidable_of_iff (∀ i < min cfg.maxAid cfg.maxNumSta, s.staAid (scanned cfg s i) ≠ none)
    ⟨fun h i hi hn => h i (lt_min hi hn), fun h i hi =>
      h i (hi.trans_le (min_le_left ..)) (hi.trans_le (min_le_right ..))⟩

theorem aidLoop_succ (fuel i aid usedCnt : ℕ) :
    aidLoop cfg s (fuel + 1) i aid usedCnt =
      if s.staAid (scanned cfg s i) = none then (i, scanned cfg s i + 1, usedCnt)
      else if usedCnt + 1 ≥ cfg.maxNumSta then (i, scanned cfg s i + 1, usedCnt + 1)
      else aidLoop cfg s fuel (i + 1) (scanned cfg s i + 1) (usedCnt + 1) := rfl

/-- The scan finds the first free AID: `used_cnt` counts the AIDs before it. -/
theorem aidLoop_spec {fuel i : ℕ} (aid : ℕ) (hfuel : i + fuel = cfg.maxAid)
    (hlt : i = 0 ∨ i < cfg.maxNumSta) (hused : ∀ j < i, s.staAid (scanned cfg s j) ≠ none) :
    (verdict cfg (aidLoop cfg s fuel i aid i) = 0 ∧ Refused cfg s) ∨
      ∃ k < cfg.maxAid, k < cfg.maxNumSta ∧ s.staAid (scanned cfg s k) = none ∧
        verdict cfg (aidLoop cfg s fuel i aid i) = scanned cfg s k + 1 := by
  induction fuel generalizing i aid with
  | zero =>
    refine Or.inl ⟨?_, fun j hj _ => hused j (by omega)⟩
    exact if_pos (Or.inl (by simp only [aidLoop]; omega))
  | succ fuel ih =>
    rw [aidLoop_succ]
    by_cases hfree : s.staAid (scanned cfg s i) = none
    · rw [if_pos hfree]
      by_cases hmax : i < cfg.maxNumSta
      · refine Or.inr ⟨i, by omega, hmax, hfree, ?_⟩
        have hverdict : ¬ (i ≥ cfg.maxAid ∨ i ≥ cfg.maxNumSta) := by omega
        exact if_neg hverdict
      · -- nothing is allowed at all
        refine Or.inl ⟨if_pos (Or.inr (by omega)), fun j _ hj => by omega⟩
    · rw [if_neg hfree]
      have hused' : ∀ j < i + 1, s.staAid (scanned cfg s j) ≠ none := fun j hj =>
        (Nat.lt_succ_iff_lt_or_eq.mp hj).elim (hused j) fun heq => heq ▸ hfree
      by_cases hmax : i + 1 ≥ cfg.maxNumSta
      · rw [if_pos hmax]
        exact Or.inl ⟨if_pos (Or.inr hmax), fun j _ hj => hused' j (by omega)⟩
      · rw [if_neg hmax]
        exact ih _ (by omega) (Or.inr (by omega)) hused'

theorem pickAid_spec (cfg : AidCfg) (s : AidCtl) :
    (pickAid cfg s = 0 ∧ Refused cfg s) ∨
      ∃ k < cfg.maxAid, k < cfg.maxNumSta ∧ s.staAid (scanned cfg s k) = none ∧
        pickAid cfg s = scanned cfg s k + 1 :=
  aidLoop_spec 0 (Nat.zero_add _) (Or.inl rfl) fun _ hj => absurd hj (Nat.not_lt_zero _)

theorem pickAid_eq_zero_iff : pickAid cfg s = 0 ↔ Refused cfg s := by
  obtain ⟨hzero, href⟩ | ⟨k, hk, hmax, hfree, hpick⟩ := pickAid_spec cfg s
  · exact iff_of_true hzero href
  · exact iff_of_false (by omega) fun href => href k hk hmax hfree

/-! ## Invariant -/

/-- The indices of `sta_aid` in use. -/
def usedAids (cfg : AidCfg) (s : AidCtl) : Finset ℕ :=
  (Finset.range cfg.maxAid).filter fun i => s.staAid i ≠ none

/-- A table of stations and their AIDs after an AID has been given out. -/
theorem entry_assign {table : ℕ → Option ℕ} {aid : ℕ → ℕ}
    (h : ∀ i x, table i = some x ↔ aid x = i + 1) {i : ℕ} (hfree : table i = none)
    (haid : aid sta = 0) (j x : ℕ) :
    Function.update table i (some sta) j = some x ↔ Function.update aid sta (i + 1) x = j + 1 := by
  have hjx := h j x
  by_cases hj : j = i <;> by_cases hx : x = sta
  · subst hj hx
    simp
  · subst hj
    rw [hfree] at hjx
    simpa [Function.update_of_ne hx, Ne.symm hx] using hjx
  · subst hx
    rw [haid] at hjx
    simpa [Function.update_of_ne hj, Ne.symm hj] using hjx
  · rw [Function.update_of_ne hj, Function.update_of_ne hx]
    exact hjx

/-- A table of stations and their AIDs after an AID has been taken back. -/
theorem entry_clear {table : ℕ → Option ℕ} {aid : ℕ → ℕ}
    (h : ∀ i x, table i = some x ↔ aid x = i + 1) {i : ℕ} (hentry : table i = some sta) (j x : ℕ) :
    Function.update table i none j = some x ↔ Function.update aid sta 0 x = j + 1 := by
  have hjx := h j x
  have haid : aid sta = i + 1 := (h i sta).mp hentry
  by_cases hj : j = i <;> by_cases hx : x = sta
  · subst hj hx
    simp
  · subst hj
    rw [hentry] at hjx
    simpa [Function.update_of_ne hx, Ne.symm hx] using hjx
  · subst hx
    rw [haid] at hjx
    simpa [Function.update_of_ne hj, Ne.symm hj] using hjx
  · rw [Function.update_of_ne hj, Function.update_of_ne hx]
    exact hjx

/-- The table and the AIDs of the stations agree. -/
structure AidInv (cfg : AidCfg) (s : AidCtl) : Prop where
  entry : ∀ i sta, s.staAid i = some sta ↔ s.aid sta = i + 1
  range : ∀ sta, s.aid sta ≤ cfg.maxAid
  dead : ∀ sta, s.live sta = false → s.aid sta = 0
  started_pos : 0 < s.startedAid
  started_le : s.startedAid ≤ max 1 cfg.maxAid

theorem aidInv_init (cfg : AidCfg) : AidInv cfg initStaPriv where
  entry i sta := by simp [initStaPriv]
  range _ := Nat.zero_le _
  dead _ _ := rfl
  started_pos := Nat.one_pos
  started_le := le_max_left ..

theorem scanned_eq (h : AidInv cfg s) (i : ℕ) :
    scanned cfg s i = (s.startedAid - 1 + i) % cfg.maxAid := by
  have hpos := h.started_pos
  rw [scanned, show i + s.startedAid - 1 = s.startedAid - 1 + i by omega]

/-- An AID that is given out is new. -/
theorem AidInv.assign (h : AidInv cfg s) {i : ℕ} (hi : i < cfg.maxAid) (hfree : s.staAid i = none)
    (hlive : s.live sta = true) (haid : s.aid sta = 0) :
    AidInv cfg { s with
      aid := Function.update s.aid sta (i + 1)
      staAid := Function.update s.staAid i (some sta)
      startedAid := if s.rrAid then (i + 1) % cfg.maxAid + 1 else s.startedAid } := by
  have hmod : (i + 1) % cfg.maxAid < cfg.maxAid := Nat.mod_lt _ (by omega)
  refine ⟨entry_assign h.entry hfree haid, fun x => ?_, fun x hx => ?_, ?_, ?_⟩
  · by_cases hx : x = sta
    · simp only [hx, Function.update_self]
      omega
    · simpa only [Function.update_of_ne hx] using h.range x
  · have hne : x ≠ sta := fun heq => by
      rw [heq] at hx
      exact absurd (hlive.symm.trans hx) (by decide)
    simpa only [Function.update_of_ne hne] using h.dead x hx
  · dsimp only
    split
    · omega
    · exact h.started_pos
  · dsimp only
    split
    · omega
    · exact h.started_le

/-- The AID of a released station is free again. -/
theorem AidInv.free (h : AidInv cfg s) (sta : ℕ) : AidInv cfg (rtwFreeStainfo s sta) := by
  unfold rtwFreeStainfo
  by_cases haid : s.aid sta = 0
  · rw [if_neg (by omega)]
    refine ⟨h.entry, h.range, fun x hx => ?_, h.started_pos, h.started_le⟩
    by_cases hne : x = sta
    · exact hne ▸ haid
    · exact h.dead x (by simpa [Function.update_of_ne hne] using hx)
  · obtain ⟨i, hi⟩ := Nat.exists_eq_succ_of_ne_zero haid
    have hentry : s.staAid i = some sta := (h.entry i sta).mpr hi
    have hindex : s.aid sta - 1 = i := by rw [hi]; rfl
    rw [if_pos ⟨by omega, hindex ▸ hentry⟩, hindex]
    refine ⟨entry_clear h.entry hentry, fun x => ?_, fun x hx => ?_, h.started_pos, h.started_le⟩
    · by_cases hx : x = sta
      · simp [hx]
      · simpa only [Function.update_of_ne hx] using h.range x
    · by_cases hne : x = sta
      · simp [hne]
      · simp only [Function.update_of_ne hne] at hx ⊢
        exact h.dead x hx

/-- An allocated station has no AID. -/
theorem AidInv.allocSta (h : AidInv cfg s) (hdead : s.live sta = false) :
    AidInv cfg { s with
      live := Function.update s.live sta true
      aid := Function.update s.aid sta 0 } := by
  have haid : Function.update s.aid sta 0 = s.aid := by
    rw [← h.dead sta hdead, Function.update_eq_self]
  rw [haid]
  refine ⟨h.entry, h.range, fun x hx => ?_, h.started_pos, h.started_le⟩
  by_cases hne : x = sta
  · simp [hne] at hx
  · exact h.dead x (by simpa [Function.update_of_ne hne] using hx)

theorem AidInv.procSet (h : AidInv cfg s) (rr : Bool) (startedAid : Option ℕ) :
    AidInv cfg (procSetAidStatus cfg s rr startedAid) := by
  cases startedAid with
  | none => exact ⟨h.entry, h.range, h.dead, h.started_pos, h.started_le⟩
  | some startedAid =>
    have hmod : startedAid % (cfg.maxAid + 1) < cfg.maxAid + 1 := Nat.mod_lt _ (by omega)
    refine ⟨h.entry, h.range, h.dead, ?_, ?_⟩ <;> dsimp only [procSetAidStatus] <;> split <;> omega

/-- What an AID assignment does to a station without an AID. -/
theorem aidAssignment_eq (haid : s.aid sta = 0) :
    (Refused cfg s ∧ aidAssignment cfg s sta = s) ∨
      ∃ i < cfg.maxAid, s.staAid i = none ∧ ¬ Refused cfg s ∧ aidAssignment cfg s sta = { s with
        aid := Function.update s.aid sta (i + 1)
        staAid := Function.update s.staAid i (some sta)
        startedAid := if s.rrAid then (i + 1) % cfg.maxAid + 1 else s.startedAid } := by
  unfold aidAssignment rtwAidAlloc
  rw [if_neg (by omega)]
  obtain ⟨hzero, href⟩ | ⟨k, hk, hmax, hfree, hpick⟩ := pickAid_spec cfg s
  · refine Or.inl ⟨href, ?_⟩
    simp only [hzero, ne_eq, not_true_eq_false, if_false]
    rw [← haid, Function.update_eq_self]
  · have hlt : scanned cfg s k < cfg.maxAid := Nat.mod_lt _ (by omega)
    refine Or.inr ⟨scanned cfg s k, hlt, hfree, fun href => href k hk hmax hfree, ?_⟩
    simp [hpick]

theorem AidInv.step (h : AidInv cfg s) {e : AidEvent} (hs : aidStep cfg s e = some s') :
    AidInv cfg s' := by
  cases e with
  | alloc sta =>
    obtain ⟨hdead, hs⟩ := Option.ite_none_left_eq_some.mp hs
    obtain rfl := Option.some.inj hs
    exact h.allocSta (Bool.eq_false_iff.mpr hdead)
  | assoc sta =>
    obtain ⟨hlive, hs⟩ := Option.ite_none_right_eq_some.mp hs
    obtain rfl := Option.some.inj hs
    by_cases haid : s.aid sta = 0
    · obtain ⟨-, heq⟩ | ⟨i, hi, hfree, -, heq⟩ := aidAssignment_eq haid
      · rw [heq]
        exact h
      · rw [heq]
        exact h.assign hi hfree hlive haid
    · rw [aidAssignment, if_pos (Nat.pos_of_ne_zero haid)]
      exact h
  | free sta =>
    obtain ⟨-, hs⟩ := Option.ite_none_right_eq_some.mp hs
    obtain rfl := Option.some.inj hs
    exact h.free sta
  | procSet rr startedAid =>
    obtain rfl := Option.some.inj hs
    exact h.procSet rr startedAid

/-! ## The association limit -/

/-- The stations holding an AID. -/
def holders (s : AidCtl) : Set ℕ := {sta | s.live sta = true ∧ s.aid sta ≠ 0}

/-- Stations and AIDs in use correspond one to one. -/
theorem AidInv.ncard_holders (h : AidInv cfg s) : (holders s).ncard = (usedAids cfg s).card := by
  have hinj : Set.InjOn (fun sta => s.aid sta - 1) (holders s) := by
    rintro x ⟨-, hx⟩ y ⟨-, hy⟩ heq
    dsimp only at heq
    have hxy : s.aid y = s.aid x - 1 + 1 := by omega
    have hentry := (h.entry (s.aid x - 1) x).mpr (by omega)
    exact Option.some.inj (hentry.symm.trans ((h.entry _ y).mpr hxy))
  have himage : (fun sta => s.aid sta - 1) '' holders s = (usedAids cfg s : Set ℕ) := by
    ext i
    simp only [usedAids, Finset.coe_filter, Finset.mem_range, Set.mem_image, Set.mem_ofPred_eq]
    constructor
    · rintro ⟨x, ⟨-, hx⟩, rfl⟩
      have hrange := h.range x
      exact ⟨by omega, by simp [(h.entry (s.aid x - 1) x).mpr (by omega)]⟩
    · rintro ⟨-, hi⟩
      obtain ⟨x, hx⟩ := Option.ne_none_iff_exists'.mp hi
      have haid := (h.entry i x).mp hx
      refine ⟨x, ⟨?_, by omega⟩, by omega⟩
      by_contra hdead
      have hzero := h.dead x (Bool.eq_false_iff.mpr hdead)
      omega
  rw [← hinj.ncard_image, himage, Set.ncard_coe_finset]

/-- The scan is only refused if no AID is free or the limit is reached. -/
theorem AidInv.of_refused (h : AidInv cfg s) (href : Refused cfg s) :
    (∀ i < cfg.maxAid, s.staAid i ≠ none) ∨ cfg.maxNumSta ≤ (usedAids cfg s).card := by
  have hscanned (i : ℕ) := scanned_eq h i
  have hle := h.started_le
  have hpos := h.started_pos
  by_cases hmax : cfg.maxAid ≤ cfg.maxNumSta
  · -- the scan has seen every AID
    refine Or.inl fun i hi => ?_
    obtain ⟨k, hk, rfl⟩ := exists_cyclic_eq (show s.startedAid - 1 < cfg.maxAid by omega) hi
    rw [← hscanned k]
    exact href k hk (hk.trans_le hmax)
  · -- the AIDs it has seen are different
    refine Or.inr ?_
    have hcard := Finset.card_le_card_of_injOn (s := Finset.range cfg.maxNumSta)
      (t := usedAids cfg s) (scanned cfg s) (fun k hk => ?_) fun k hk l hl heq => ?_
    · rwa [Finset.card_range] at hcard
    · have hk := Finset.mem_range.mp hk
      simp only [usedAids, Finset.coe_filter, Finset.mem_range, Set.mem_ofPred_eq]
      exact ⟨Nat.mod_lt _ (by omega), href k (by omega) hk⟩
    · have hk := Finset.mem_range.mp hk
      have hl := Finset.mem_range.mp hl
      rw [hscanned k, hscanned l] at heq
      exact cyclic_injective (by omega) (by omega) heq

/-- When an AID is to be given out with `max_num_sta` in use, the scan meets as many before a free
one. -/
def AssocOk (cfg : AidCfg) (s : AidCtl) : AidEvent → Prop
  | .assoc sta => s.live sta = true → s.aid sta = 0 → cfg.maxNumSta ≤ (usedAids cfg s).card →
    Refused cfg s
  | _ => True

theorem card_assign {i : ℕ} (hi : i < cfg.maxAid) (hfree : s.staAid i = none)
    (hs : s'.staAid = Function.update s.staAid i (some sta)) :
    (usedAids cfg s').card = (usedAids cfg s).card + 1 := by
  have hnot : i ∉ usedAids cfg s := by simp [usedAids, hfree]
  rw [← Finset.card_insert_of_notMem hnot]
  congr 1
  ext j
  simp only [usedAids, hs, Finset.mem_filter, Finset.mem_range, Finset.mem_insert]
  by_cases hj : j = i
  · simp [hj, hi]
  · simp [hj]

/-- Nothing but an AID assignment takes an AID. -/
theorem card_free_le (s : AidCtl) (sta : ℕ) :
    (usedAids cfg (rtwFreeStainfo s sta)).card ≤ (usedAids cfg s).card := by
  apply Finset.card_le_card
  intro j hj
  simp only [usedAids, Finset.mem_filter] at hj ⊢
  refine ⟨hj.1, fun hnone => hj.2 ?_⟩
  unfold rtwFreeStainfo
  split
  · by_cases heq : j = s.aid sta - 1
    · simp [heq]
    · simpa [Function.update_of_ne heq] using hnone
  · exact hnone

/-- The limit is kept by exactly the steps that meet the condition. -/
theorem limit_iff (hle : (usedAids cfg s).card ≤ cfg.maxNumSta)
    {e : AidEvent} (hs : aidStep cfg s e = some s') :
    (usedAids cfg s').card ≤ cfg.maxNumSta ↔ AssocOk cfg s e := by
  cases e with
  | alloc sta =>
    obtain ⟨-, hs⟩ := Option.ite_none_left_eq_some.mp hs
    obtain rfl := Option.some.inj hs
    exact iff_of_true hle trivial
  | assoc sta =>
    obtain ⟨hlive, hs⟩ := Option.ite_none_right_eq_some.mp hs
    obtain rfl := Option.some.inj hs
    by_cases haid : s.aid sta = 0
    · simp only [AssocOk, hlive, haid, forall_const]
      obtain ⟨href, heq⟩ | ⟨i, hi, hfree, hnot, heq⟩ := aidAssignment_eq haid
      · rw [heq]
        exact iff_of_true hle fun _ => href
      · rw [card_assign hi hfree (by rw [heq])]
        constructor
        · intro hlt hmax
          omega
        · intro hok
          by_contra hmax
          exact hnot (hok (by omega))
    · rw [aidAssignment, if_pos (Nat.pos_of_ne_zero haid)]
      exact iff_of_true hle fun _ hzero => absurd hzero haid
  | free sta =>
    obtain ⟨-, hs⟩ := Option.ite_none_right_eq_some.mp hs
    obtain rfl := Option.some.inj hs
    exact iff_of_true ((card_free_le s sta).trans hle) trivial
  | procSet rr startedAid =>
    obtain rfl := Option.some.inj hs
    have hsame : (procSetAidStatus cfg s rr startedAid).staAid = s.staAid := by
      cases startedAid <;> rfl
    refine iff_of_true ?_ trivial
    rw [usedAids, hsame]
    exact hle

/-! ## Main results -/

/-- The AIDs of live stations are different and within bounds, the table holds exactly them, and an
allocation is refused only if no AID is free or the limit is reached. -/
structure AidsOk (cfg : AidCfg) (s : AidCtl) : Prop where
  distinct : ∀ x y, s.live x = true → s.live y = true → s.aid x ≠ 0 → s.aid x = s.aid y → x = y
  bounds : ∀ x, s.live x = true → s.aid x ≠ 0 → 1 ≤ s.aid x ∧ s.aid x ≤ cfg.maxAid
  table : ∀ a, 1 ≤ a → a ≤ cfg.maxAid → ∀ x, s.staAid (a - 1) = some x ↔
    s.live x = true ∧ s.aid x = a
  refused : ∀ x, (rtwAidAlloc cfg s x).1 = 0 →
    (∀ a, 1 ≤ a → a ≤ cfg.maxAid → s.staAid (a - 1) ≠ none) ∨ cfg.maxNumSta ≤ (holders s).ncard

theorem AidInv.aidsOk (h : AidInv cfg s) : AidsOk cfg s where
  distinct x y _ _ hx hxy := by
    have hentry := (h.entry (s.aid x - 1) x).mpr (by omega)
    exact Option.some.inj (hentry.symm.trans ((h.entry _ y).mpr (by omega)))
  bounds x _ hx := ⟨Nat.pos_of_ne_zero hx, h.range x⟩
  table a ha _ x := by
    rw [h.entry, Nat.sub_add_cancel ha]
    refine ⟨fun haid => ⟨?_, haid⟩, And.right⟩
    by_contra hdead
    have hzero := h.dead x (Bool.eq_false_iff.mpr hdead)
    omega
  refused x hzero := by
    have hpick : pickAid cfg s = 0 := by
      by_contra hne
      rw [rtwAidAlloc, if_pos hne] at hzero
      exact hne hzero
    rw [h.ncard_holders]
    refine (h.of_refused (pickAid_eq_zero_iff.mp hpick)).imp_left fun hall a ha hle => ?_
    exact hall (a - 1) (by omega)

theorem run_aidInv {es : List AidEvent} (h : run (aidStep cfg) initStaPriv es = some s) :
    AidInv cfg s :=
  have hstep (s : AidCtl) (e : AidEvent) (s' : AidCtl) (hinv : AidInv cfg s) (_ : True)
      (hs : aidStep cfg s e = some s') : AidInv cfg s' := hinv.step hs
  run_preserves (AidInv cfg) hstep (aidInv_init cfg) (guarded_of_forall (fun _ _ => trivial) _) h

/-- In every run the AIDs are as they should be; and the number of stations that hold an AID stays
within the limit if and only if, whenever an AID is to be given out with the limit reached, the
first `max_num_sta` AIDs from `started_aid` on are all in use. -/
theorem run_assoc_limit_iff (cfg : AidCfg) (es : List AidEvent) :
    (∀ s, run (aidStep cfg) initStaPriv es = some s → AidsOk cfg s) ∧
    ((∀ pre s, pre <+: es → run (aidStep cfg) initStaPriv pre = some s →
        (holders s).ncard ≤ cfg.maxNumSta) ↔
      Guarded (aidStep cfg) (AssocOk cfg) initStaPriv es) := by
  refine ⟨fun s hrun => (run_aidInv hrun).aidsOk, ?_⟩
  have hinit : AidInv cfg initStaPriv ∧ (usedAids cfg initStaPriv).card ≤ cfg.maxNumSta :=
    ⟨aidInv_init cfg, by simp [usedAids, initStaPriv]⟩
  have hstep (s : AidCtl) (e : AidEvent) (s' : AidCtl)
      (hs : AidInv cfg s ∧ (usedAids cfg s).card ≤ cfg.maxNumSta)
      (he : aidStep cfg s e = some s') :
      (AidInv cfg s' ∧ (usedAids cfg s').card ≤ cfg.maxNumSta) ↔ AssocOk cfg s e :=
    (and_iff_right (hs.1.step he)).trans (limit_iff hs.2 he)
  have hnone (s : AidCtl) (e : AidEvent) (he : aidStep cfg s e = none) : AssocOk cfg s e := by
    cases e with
    | assoc sta =>
      intro hlive
      rw [aidStep, if_pos hlive] at he
      cases he
    | alloc _ | free _ | procSet _ _ => trivial
  rw [← run_inv_iff_guarded _ hnone hstep es hinit]
  refine forall_congr' fun pre => forall_congr' fun s => forall_congr' fun _ =>
    forall_congr' fun hrun => ?_
  rw [(run_aidInv hrun).ncard_holders, and_iff_right (run_aidInv hrun)]

/-- Round-robin selection, at most two stations. -/
def threeAssociations : List AidEvent :=
  [.procSet true none, .alloc 0, .assoc 0, .alloc 1, .assoc 1, .alloc 2, .assoc 2]

/-- Every scan starts behind the AIDs in use, and a third station associates. -/
theorem threeAssociations_exceed_limit :
    ∃ s, run (aidStep ⟨8, 2⟩) initStaPriv threeAssociations = some s ∧
      (s.aid 0, s.aid 1, s.aid 2) = (1, 2, 3) ∧ (holders s).ncard = 3 ∧
        ¬ (holders s).ncard ≤ 2 := by
  have hview : (run (aidStep ⟨8, 2⟩) initStaPriv threeAssociations).map (fun s =>
      ((usedAids ⟨8, 2⟩ s).card, s.aid 0, s.aid 1, s.aid 2)) = some (3, 1, 2, 3) := by
    decide +kernel
  obtain ⟨s, hrun, heq⟩ := Option.map_eq_some_iff.mp hview
  obtain ⟨hcard, haids⟩ := Prod.mk.inj heq
  have hholders : (holders s).ncard = 3 := (run_aidInv hrun).ncard_holders.trans hcard
  exact ⟨s, hrun, haids, hholders, by omega⟩

end Rtl88x2cu.Ap
