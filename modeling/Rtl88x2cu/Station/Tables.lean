import Rtl88x2cu.Lib.BitArray
import Rtl88x2cu.Station.Model

/-!
# The macid tables of the stations

`Tables H s` says that the macid bitmaps, the pointer table and the list of TX rings agree, where
`H` is the set of the stations that may hold a macid. Giving a macid and a ring to a station adds
it to `H`, and taking them away removes it, whichever of the sub-steps fail: a station whose ring
could not be registered is in `H` without a macid.

All these operations leave the queues, the roles, and the other fields of the stations alone
(`Frame`).
-/

namespace Rtl88x2cu.Station

open Trx (RtwPhlStatus)

/-! ## Bitmaps -/

section Bitmap

variable (map : MacidMap) (m m' : ℕ)

@[simp]
theorem macidIsUsed_set :
    phlMacidIsUsed (phlMacidMapSet map m) m' = (decide (m' = m) || phlMacidIsUsed map m') :=
  BitArray.test_set (by decide) map m m'

@[simp]
theorem macidIsUsed_clr :
    phlMacidIsUsed (phlMacidMapClr map m) m' = (!decide (m' = m) && phlMacidIsUsed map m') :=
  BitArray.test_clear (by decide) map m m'

/-- Clearing a bit that has just been set, and was not set before. -/
theorem macidMap_clr_set {map : MacidMap} {m : ℕ} (h : phlMacidIsUsed map m = false) :
    phlMacidMapClr (phlMacidMapSet map m) m = map :=
  BitArray.clear_set (by decide) h

end Bitmap

/-- The macid that is allocated is a valid one that is not used. -/
theorem firstUnused_spec {mc : MacidCtl} {m : ℕ} (h : firstUnused mc = some m) :
    m < mc.maxNum ∧ phlMacidIsUsed mc.usedMap m = false := by
  have hmem := List.mem_of_find?_eq_some h
  have hfree := List.find?_some h
  exact ⟨List.mem_range.mp hmem, by simpa using hfree⟩

/-! ## What the operations on macids and rings leave alone -/

/-- From `s` to `t` at most the macids of stations, the macid control block and the list of rings
have changed. -/
structure Frame (s t : State) : Prop where
  assoc : t.assocStaQueue = s.assocStaQueue
  free : t.freeStaQueue = s.freeStaQueue
  role : t.wifiRole = s.wifiRole
  maxNum : t.macidCtl.maxNum = s.macidCtl.maxNum
  wrole (y : ℕ) : (t.staInfo y).wrole = (s.staInfo y).wrole
  macAddr (y : ℕ) : (t.staInfo y).macAddr = (s.staInfo y).macAddr
  active (y : ℕ) : (t.staInfo y).active = (s.staInfo y).active

theorem Frame.trans {s t u : State} (h : Frame s t) (h' : Frame t u) : Frame s u where
  assoc := h'.assoc.trans h.assoc
  free := h'.free.trans h.free
  role := h'.role.trans h.role
  maxNum := h'.maxNum.trans h.maxNum
  wrole y := (h'.wrole y).trans (h.wrole y)
  macAddr y := (h'.macAddr y).trans (h.macAddr y)
  active y := (h'.active y).trans (h.active y)

section Fields

variable (s : State) (x y r : ℕ) (f : StaInfo → StaInfo) (q : PhlQueue ℕ)

@[simp]
theorem setSta_macidCtl : (s.setSta x f).macidCtl = s.macidCtl := rfl

@[simp]
theorem setSta_free : (s.setSta x f).freeStaQueue = s.freeStaQueue := rfl

@[simp]
theorem setSta_assoc : (s.setSta x f).assocStaQueue = s.assocStaQueue := rfl

@[simp]
theorem setSta_role : (s.setSta x f).wifiRole = s.wifiRole := rfl

@[simp]
theorem setSta_ring : (s.setSta x f).tRingList = s.tRingList := rfl

@[simp]
theorem setSta_self : (s.setSta x f).staInfo x = f (s.staInfo x) := Function.update_self ..

theorem setSta_of_ne {x y : ℕ} (h : y ≠ x) : (s.setSta x f).staInfo y = s.staInfo y :=
  Function.update_of_ne h ..

/-- A field that the write does not change. -/
theorem setSta_field {β : Type} (g : StaInfo → β) (hg : ∀ i, g (f i) = g i) :
    g ((s.setSta x f).staInfo y) = g (s.staInfo y) := by
  by_cases hy : y = x
  · rw [hy, setSta_self, hg]
  · rw [setSta_of_ne _ _ hy]

@[simp]
theorem setAssoc_macidCtl : (s.setAssoc r q).macidCtl = s.macidCtl := rfl

@[simp]
theorem setAssoc_free : (s.setAssoc r q).freeStaQueue = s.freeStaQueue := rfl

@[simp]
theorem setAssoc_role : (s.setAssoc r q).wifiRole = s.wifiRole := rfl

@[simp]
theorem setAssoc_ring : (s.setAssoc r q).tRingList = s.tRingList := rfl

@[simp]
theorem setAssoc_staInfo : (s.setAssoc r q).staInfo = s.staInfo := rfl

@[simp]
theorem setAssoc_self : (s.setAssoc r q).assocStaQueue r = q := Function.update_self ..

theorem setAssoc_of_ne {r r' : ℕ} (h : r' ≠ r) :
    (s.setAssoc r q).assocStaQueue r' = s.assocStaQueue r' :=
  Function.update_of_ne h ..

end Fields

/-- A write to the macid of a station, with any new macid control block and list of rings. -/
theorem Frame.of_setMacid (s : State) (mc : MacidCtl) (hmc : mc.maxNum = s.macidCtl.maxNum)
    (ring : List ℕ) (x m : ℕ) :
    Frame s ({ s with macidCtl := mc, tRingList := ring }.setSta x
      fun i => { i with macid := m }) where
  assoc := rfl
  free := rfl
  role := rfl
  maxNum := hmc
  wrole _ := setSta_field _ _ _ _ StaInfo.wrole fun _ => rfl
  macAddr _ := setSta_field _ _ _ _ StaInfo.macAddr fun _ => rfl
  active _ := setSta_field _ _ _ _ StaInfo.active fun _ => rfl

theorem Frame.of_ring (s : State) (ring : List ℕ) : Frame s { s with tRingList := ring } :=
  ⟨rfl, rfl, rfl, rfl, fun _ => rfl, fun _ => rfl, fun _ => rfl⟩

theorem frame_allocMacid (s : State) (x : ℕ) : Frame s (phlAllocMacid s x).2 := by
  unfold phlAllocMacid
  dsimp only
  split
  · exact Frame.of_setMacid s s.macidCtl rfl s.tRingList x _
  next mid _ =>
    exact Frame.of_setMacid s (s.macidCtl.assign x (s.staInfo x) mid) rfl s.tRingList x _

theorem frame_releaseMacid (s : State) (x : ℕ) : Frame s (phlReleaseMacid s x).2 := by
  unfold phlReleaseMacid
  dsimp only
  split
  · exact Frame.of_setMacid s s.macidCtl rfl s.tRingList x _
  · split
    · exact Frame.of_setMacid s s.macidCtl rfl s.tRingList x _
    · exact Frame.of_setMacid s (s.macidCtl.clear (s.staInfo x)) rfl s.tRingList x _

theorem frame_registerTxRing (s : State) (m : ℕ) (ok : Bool) :
    Frame s (phlRegisterTxRing s m ok).2 := by
  unfold phlRegisterTxRing
  split
  · exact Frame.of_ring s _
  · exact Frame.of_ring s s.tRingList

theorem frame_deregisterTxRing (s : State) (m : ℕ) : Frame s (phlDeregisterTxRing s m).2 := by
  unfold phlDeregisterTxRing
  split
  · exact Frame.of_ring s _
  · exact Frame.of_ring s s.tRingList

theorem frame_freeStainfoSw₀ (s : State) (x : ℕ) : Frame s (phlFreeStainfoSw₀ s x).2 :=
  (frame_deregisterTxRing s _).trans (frame_releaseMacid _ x)

theorem frame_allocStainfoSw₀ (s : State) (x : ℕ) (ringOk : Bool) :
    Frame s (phlAllocStainfoSw₀ s x ringOk).2 := by
  unfold phlAllocStainfoSw₀
  have halloc := frame_allocMacid s x
  split
  next s₁ heq =>
    rw [heq] at halloc
    have hring := frame_registerTxRing s₁ (s₁.staInfo x).macid ringOk
    split
    next s₂ heq₂ =>
      rw [heq₂] at hring
      exact halloc.trans hring
    next s₂ _ heq₂ =>
      rw [heq₂] at hring
      exact (halloc.trans hring).trans (frame_releaseMacid s₂ x)
  next st s₁ heq =>
    rw [heq] at halloc
    exact halloc

/-! ## Agreement of the tables -/

/-- The macid tables agree, and only stations of `H` hold macids. -/
structure Tables (H : ℕ → Prop) (s : State) : Prop where
  /-- The bitmap of used macids and the pointer table say the same. -/
  used (m : ℕ) : phlMacidIsUsed s.macidCtl.usedMap m = (s.macidCtl.sta m).isSome
  /-- A recorded station has the macid it is recorded under. -/
  sta {m x : ℕ} : s.macidCtl.sta m = some x →
    m < s.macidCtl.maxNum ∧ (s.staInfo x).macid = m ∧ H x
  /-- The bitmap of a role holds the macids of the stations of the role. -/
  roleMap (r m : ℕ) : phlMacidIsUsed (s.macidCtl.wifiRoleUsedmap r) m = true ↔
    ∃ x, s.macidCtl.sta m = some x ∧ (s.staInfo x).wrole = r
  /-- There is one TX ring list for each used macid. -/
  ring (m : ℕ) : s.tRingList.count m = if (s.macidCtl.sta m).isSome then 1 else 0
  /-- A station with a valid macid is recorded under it. -/
  holder {x : ℕ} : H x → (s.staInfo x).macid < s.macidCtl.maxNum →
    s.macidCtl.sta (s.staInfo x).macid = some x

namespace Tables

variable {H : ℕ → Prop} {s t : State} {x : ℕ}

/-- What the agreement depends on. -/
theorem congr (h : Tables H s) (hused : t.macidCtl.usedMap = s.macidCtl.usedMap)
    (hrole : t.macidCtl.wifiRoleUsedmap = s.macidCtl.wifiRoleUsedmap)
    (hsta : t.macidCtl.sta = s.macidCtl.sta) (hmax : t.macidCtl.maxNum = s.macidCtl.maxNum)
    (hring : t.tRingList = s.tRingList)
    (hmacid : ∀ y, H y → (t.staInfo y).macid = (s.staInfo y).macid)
    (hwrole : ∀ y, H y → (t.staInfo y).wrole = (s.staInfo y).wrole) : Tables H t where
  used m := by rw [hused, hsta, h.used]
  sta {m y} hy := by
    rw [hsta] at hy
    obtain ⟨hm, hmid, hH⟩ := h.sta hy
    rw [hmax, hmacid y hH]
    exact ⟨hm, hmid, hH⟩
  roleMap r m := by
    rw [hrole, hsta, h.roleMap]
    refine exists_congr fun y => and_congr_right fun hy => ?_
    rw [hwrole y (h.sta hy).2.2]
  ring m := by rw [hring, hsta, h.ring]
  holder {y} hy := by
    rw [hmacid y hy, hmax, hsta]
    exact h.holder hy

/-- A station that holds no macid may count as one of `H`. -/
theorem add (h : Tables H s) (hx : s.macidCtl.maxNum ≤ (s.staInfo x).macid) :
    Tables (fun y => H y ∨ y = x) s where
  used := h.used
  sta hy := (h.sta hy).imp_right fun hy => hy.imp_right Or.inl
  roleMap := h.roleMap
  ring := h.ring
  holder {y} hy hlt := by
    obtain hy | rfl := hy
    · exact h.holder hy hlt
    · omega

/-- A station that holds no macid need not count as one of `H`. -/
theorem remove (h : Tables H s) (hx : s.macidCtl.maxNum ≤ (s.staInfo x).macid) :
    Tables (fun y => H y ∧ y ≠ x) s where
  used := h.used
  sta {m y} hy := by
    obtain ⟨hm, hmid, hH⟩ := h.sta hy
    refine ⟨hm, hmid, hH, ?_⟩
    rintro rfl
    omega
  roleMap := h.roleMap
  ring := h.ring
  holder hy := h.holder hy.1

/-- The sets of holders can be exchanged for an equivalent one. -/
theorem of_iff {H' : ℕ → Prop} (h : Tables H s) (hH : ∀ y, H y ↔ H' y) : Tables H' s := by
  obtain rfl : H = H' := funext fun y => propext (hH y)
  exact h

/-- An unused macid is not recorded, in no role's bitmap, and has no ring. -/
theorem not_recorded (h : Tables H s) {m : ℕ}
    (hm : phlMacidIsUsed s.macidCtl.usedMap m = false) : s.macidCtl.sta m = none := by
  rw [h.used] at hm
  exact Option.not_isSome_iff_eq_none.mp (by rw [hm]; exact Bool.false_ne_true)

theorem not_roleMap (h : Tables H s) {m : ℕ} (hm : s.macidCtl.sta m = none) (r : ℕ) :
    phlMacidIsUsed (s.macidCtl.wifiRoleUsedmap r) m = false := by
  rw [Bool.eq_false_iff, ne_eq, h.roleMap]
  rintro ⟨y, hy, -⟩
  rw [hm] at hy
  cases hy

/-- No macid from `max_num` on is recorded. -/
theorem sta_eq_none (h : Tables H s) {m : ℕ} (hm : s.macidCtl.maxNum ≤ m) :
    s.macidCtl.sta m = none := by
  by_contra hne
  obtain ⟨y, hy⟩ := Option.ne_none_iff_exists'.mp hne
  have hlt := (h.sta hy).1
  omega

theorem not_mem_ring (h : Tables H s) {m : ℕ} (hm : s.macidCtl.sta m = none) :
    m ∉ s.tRingList := by
  rw [← List.count_eq_zero, h.ring, hm]
  rfl

/-- The macid `m` and its ring are given to a station that holds none. -/
theorem assign (h : Tables H s) (hx : ¬ H x) {m : ℕ} (hm : m < s.macidCtl.maxNum)
    (hnone : s.macidCtl.sta m = none) :
    Tables (fun y => H y ∨ y = x)
      ({ s with macidCtl := s.macidCtl.assign x (s.staInfo x) m
                tRingList := s.tRingList ++ [m] }.setSta x fun i => { i with macid := m }) where
  used m' := by
    show phlMacidIsUsed (phlMacidMapSet s.macidCtl.usedMap m) m' =
      (Function.update s.macidCtl.sta m (some x) m').isSome
    rw [macidIsUsed_set, h.used]
    by_cases hm' : m' = m
    · simp [hm']
    · simp [hm']
  sta {m' y} hy := by
    change Function.update s.macidCtl.sta m (some x) m' = some y at hy
    by_cases hm' : m' = m
    · -- the new entry
      rw [hm', Function.update_self] at hy
      obtain rfl := Option.some.inj hy
      exact ⟨hm' ▸ hm, by rw [setSta_self, hm'], Or.inr rfl⟩
    · rw [Function.update_of_ne hm'] at hy
      obtain ⟨hlt, hmid, hH⟩ := h.sta hy
      have hne : y ≠ x := fun heq => hx (heq ▸ hH)
      refine ⟨hlt, ?_, Or.inl hH⟩
      rw [setSta_of_ne _ _ hne]
      exact hmid
  roleMap r m' := by
    show phlMacidIsUsed (Function.update s.macidCtl.wifiRoleUsedmap (s.staInfo x).wrole _ r) m' =
      true ↔ ∃ y, Function.update s.macidCtl.sta m (some x) m' = some y ∧ _
    have hwrole (y : ℕ) := setSta_field s x y (fun i => { i with macid := m }) StaInfo.wrole
      fun _ => rfl
    have hold := h.roleMap r m'
    by_cases hm' : m' = m
    · -- the new macid is in the bitmap of the station's role and in no other
      have hclear := h.not_roleMap hnone r
      rw [hm', Function.update_self]
      by_cases hr : r = (s.staInfo x).wrole
      · rw [hr, Function.update_self, macidIsUsed_set, decide_eq_true rfl, Bool.true_or]
        exact iff_of_true rfl ⟨x, rfl, hwrole x⟩
      · rw [Function.update_of_ne hr, hclear]
        refine iff_of_false Bool.false_ne_true ?_
        rintro ⟨y, hy, hyr⟩
        obtain rfl := Option.some.inj hy
        exact hr (hyr.symm.trans (hwrole x))
    · -- the others are where they were
      rw [Function.update_of_ne hm']
      have hbit : phlMacidIsUsed (Function.update s.macidCtl.wifiRoleUsedmap (s.staInfo x).wrole
          (phlMacidMapSet (s.macidCtl.wifiRoleUsedmap (s.staInfo x).wrole) m) r) m' =
          phlMacidIsUsed (s.macidCtl.wifiRoleUsedmap r) m' := by
        by_cases hr : r = (s.staInfo x).wrole
        · rw [hr, Function.update_self, macidIsUsed_set, decide_eq_false hm', Bool.false_or]
        · rw [Function.update_of_ne hr]
      rw [hbit, hold]
      exact exists_congr fun y => and_congr_right fun _ => by rw [← hwrole y]; rfl
  ring m' := by
    show (s.tRingList ++ [m]).count m' =
      if (Function.update s.macidCtl.sta m (some x) m').isSome then 1 else 0
    rw [List.count_append, h.ring]
    by_cases hm' : m' = m
    · simp [hm', hnone]
    · simp [hm', Ne.symm hm']
  holder {y} hy hlt := by
    show Function.update s.macidCtl.sta m (some x) _ = some y
    by_cases hyx : y = x
    · rw [hyx, setSta_self]
      exact Function.update_self ..
    · have hHy := hy.resolve_right hyx
      rw [setSta_of_ne _ _ hyx] at hlt ⊢
      have hsta := h.holder hHy hlt
      rw [Function.update_of_ne]
      · exact hsta
      · rintro heq
        rw [show (s.staInfo y).macid = m from heq, hnone] at hsta
        cases hsta

/-- The macid of a station and its ring are taken away. -/
theorem clear (h : Tables H s) (hx : H x) (hlt : (s.staInfo x).macid < s.macidCtl.maxNum) :
    Tables H ({ s with macidCtl := s.macidCtl.clear (s.staInfo x)
                       tRingList := s.tRingList.erase (s.staInfo x).macid }.setSta x
      fun i => { i with macid := s.macidCtl.maxNum }) := by
  have hrec := h.holder hx hlt
  set m := (s.staInfo x).macid with hm
  have hne {m' y : ℕ} (hm' : m' ≠ m) (hy : s.macidCtl.sta m' = some y) : y ≠ x := by
    rintro rfl
    exact hm' ((h.sta hy).2.1.symm)
  refine
  { used := fun m' => ?_, sta := fun {m' y} hy => ?_, roleMap := fun r m' => ?_,
    ring := fun m' => ?_, holder := fun {y} hy hlt' => ?_ }
  · show phlMacidIsUsed (phlMacidMapClr s.macidCtl.usedMap m) m' =
      (Function.update s.macidCtl.sta m none m').isSome
    rw [macidIsUsed_clr, h.used]
    by_cases hm' : m' = m
    · simp [hm']
    · simp [hm']
  · change Function.update s.macidCtl.sta m none m' = some y at hy
    by_cases hm' : m' = m
    · rw [hm', Function.update_self] at hy
      cases hy
    · rw [Function.update_of_ne hm'] at hy
      obtain ⟨hlt', hmid, hH⟩ := h.sta hy
      refine ⟨hlt', ?_, hH⟩
      rw [setSta_of_ne _ _ (hne hm' hy)]
      exact hmid
  · show phlMacidIsUsed (Function.update s.macidCtl.wifiRoleUsedmap (s.staInfo x).wrole
      (phlMacidMapClr (s.macidCtl.wifiRoleUsedmap (s.staInfo x).wrole) m) r) m' =
      true ↔ ∃ y, Function.update s.macidCtl.sta m none m' = some y ∧ _
    by_cases hm' : m' = m
    · -- the macid was in the bitmap of the station's role only
      rw [hm', Function.update_self]
      refine iff_of_false ?_ (by rintro ⟨y, hy, -⟩; cases hy)
      by_cases hr : r = (s.staInfo x).wrole
      · rw [hr, Function.update_self, macidIsUsed_clr, decide_eq_true rfl]
        exact Bool.false_ne_true
      · rw [Function.update_of_ne hr, h.roleMap]
        rintro ⟨y, hy, hyr⟩
        rw [hrec] at hy
        obtain rfl := Option.some.inj hy
        exact hr hyr.symm
    · rw [Function.update_of_ne hm']
      have hbit : phlMacidIsUsed (Function.update s.macidCtl.wifiRoleUsedmap (s.staInfo x).wrole
          (phlMacidMapClr (s.macidCtl.wifiRoleUsedmap (s.staInfo x).wrole) m) r) m' =
          phlMacidIsUsed (s.macidCtl.wifiRoleUsedmap r) m' := by
        by_cases hr : r = (s.staInfo x).wrole
        · rw [hr, Function.update_self, macidIsUsed_clr, decide_eq_false hm', Bool.not_false,
            Bool.true_and]
        · rw [Function.update_of_ne hr]
      rw [hbit, h.roleMap]
      refine exists_congr fun y => and_congr_right fun hy => ?_
      rw [setSta_of_ne _ _ (hne hm' hy)]
  · show (s.tRingList.erase m).count m' =
      if (Function.update s.macidCtl.sta m none m').isSome then 1 else 0
    by_cases hm' : m' = m
    · have hone := h.ring m
      rw [hrec] at hone
      rw [hm', List.count_erase_self, hone, Function.update_self]
      rfl
    · rw [List.count_erase_of_ne hm', h.ring, Function.update_of_ne hm']
  · show Function.update s.macidCtl.sta m none _ = some y
    by_cases hyx : y = x
    · rw [hyx, setSta_self] at hlt'
      exact absurd hlt' (lt_irrefl _)
    · rw [setSta_of_ne _ _ hyx] at hlt' ⊢
      have hsta := h.holder hy hlt'
      rw [Function.update_of_ne]
      · exact hsta
      · intro heq
        rw [show (s.staInfo y).macid = m from heq, hrec] at hsta
        exact hyx (Option.some.inj hsta).symm

end Tables

/-! ## A macid and a ring for a station, and back -/

/-- The later of two writes to the macid of a station stays. -/
theorem setSta_macid_twice (s : State) (x m m' : ℕ) :
    (s.setSta x fun i => { i with macid := m }).setSta x (fun i => { i with macid := m' }) =
      s.setSta x fun i => { i with macid := m' } := by
  simp only [State.setSta, Function.update_self, Function.update_idem]

/-- What `_phl_alloc_stainfo_sw` does: there is no macid; the macid and the ring are given; or the
ring cannot be registered, and the macid is taken back. -/
theorem allocStainfoSw₀_cases (s : State) (x : ℕ) (ringOk : Bool) :
    (firstUnused s.macidCtl = none ∧ phlAllocStainfoSw₀ s x ringOk =
      (.failure, s.setSta x fun i => { i with macid := s.macidCtl.maxNum })) ∨
    ∃ m, firstUnused s.macidCtl = some m ∧
      ((ringOk = true ∧ phlAllocStainfoSw₀ s x ringOk =
        (.success, { s with macidCtl := s.macidCtl.assign x (s.staInfo x) m
                            tRingList := s.tRingList ++ [m] }.setSta x
          fun i => { i with macid := m })) ∨
      (ringOk = false ∧ phlAllocStainfoSw₀ s x ringOk =
        (.success, { s with macidCtl := (s.macidCtl.assign x (s.staInfo x) m).clear
                              { s.staInfo x with macid := m } }.setSta x
          fun i => { i with macid := s.macidCtl.maxNum }))) := by
  cases hfirst : firstUnused s.macidCtl with
  | none =>
    refine Or.inl ⟨rfl, ?_⟩
    simp only [phlAllocStainfoSw₀, phlAllocMacid, hfirst]
  | some m =>
    refine Or.inr ⟨m, rfl, ?_⟩
    have halloc : phlAllocMacid s x = (.success, { s with
        macidCtl := s.macidCtl.assign x (s.staInfo x) m }.setSta x
        fun i => { i with macid := m }) := by
      simp only [phlAllocMacid, hfirst]
    cases ringOk with
    | true =>
      refine Or.inl ⟨rfl, ?_⟩
      simp only [phlAllocStainfoSw₀, halloc, setSta_self, phlRegisterTxRing]
      rfl
    | false =>
      refine Or.inr ⟨rfl, ?_⟩
      -- the macid that was just given is valid and used, so it is released
      have hlt : ¬ s.macidCtl.maxNum ≤ m := by
        have := (firstUnused_spec hfirst).1
        omega
      have hused : phlMacidIsUsed (phlMacidMapSet s.macidCtl.usedMap m) m = true := by
        rw [macidIsUsed_set, decide_eq_true rfl, Bool.true_or]
      have hmap : (s.macidCtl.assign x (s.staInfo x) m).usedMap =
        phlMacidMapSet s.macidCtl.usedMap m := rfl
      have hmax : (s.macidCtl.assign x (s.staInfo x) m).maxNum = s.macidCtl.maxNum := rfl
      simp only [phlAllocStainfoSw₀, halloc, phlRegisterTxRing, Bool.false_eq_true, ↓reduceIte,
        phlReleaseMacid, setSta_self, setSta_macidCtl, hmap, hmax, hused, hlt, Bool.not_true]
      exact congrArg (Prod.mk _) (setSta_macid_twice
        { s with macidCtl := (s.macidCtl.assign x (s.staInfo x) m).clear
                   { s.staInfo x with macid := m } } x m s.macidCtl.maxNum)

/-- What `_phl_free_stainfo_sw` does to a station: its macid and its ring are taken away, if it
holds a macid. -/
theorem freeStainfoSw₀_cases {H : ℕ → Prop} {s : State} (h : Tables H s) {x : ℕ} (hx : H x) :
    ((s.staInfo x).macid < s.macidCtl.maxNum ∧ (phlFreeStainfoSw₀ s x).2 =
      { s with macidCtl := s.macidCtl.clear (s.staInfo x)
               tRingList := s.tRingList.erase (s.staInfo x).macid }.setSta x
        fun i => { i with macid := s.macidCtl.maxNum }) ∨
    (s.macidCtl.maxNum ≤ (s.staInfo x).macid ∧ (phlFreeStainfoSw₀ s x).2 =
      s.setSta x fun i => { i with macid := s.macidCtl.maxNum }) := by
  obtain hlt | hge := Nat.lt_or_ge (s.staInfo x).macid s.macidCtl.maxNum
  · have hrec := h.holder hx hlt
    have hused : phlMacidIsUsed s.macidCtl.usedMap (s.staInfo x).macid = true := by
      rw [h.used, hrec]
      rfl
    have hring : (s.staInfo x).macid ∈ s.tRingList := by
      rw [← List.count_pos_iff, h.ring, hrec]
      exact Nat.one_pos
    have hnle : ¬ s.macidCtl.maxNum ≤ (s.staInfo x).macid := by omega
    refine Or.inl ⟨hlt, ?_⟩
    simp [phlFreeStainfoSw₀, phlDeregisterTxRing, hring, phlReleaseMacid, hnle, hused]
  · have hring := h.not_mem_ring (h.sta_eq_none hge)
    refine Or.inr ⟨hge, ?_⟩
    simp [phlFreeStainfoSw₀, phlDeregisterTxRing, hring, phlReleaseMacid, hge]

namespace Tables

variable {H : ℕ → Prop} {s : State} {x : ℕ}

/-- The write of the invalid macid to a station that is not recorded. -/
theorem invalidate (h : Tables H s) (hx : ¬ H x) :
    Tables H (s.setSta x fun i => { i with macid := s.macidCtl.maxNum }) := by
  have hne {y : ℕ} (hy : H y) : y ≠ x := fun heq => hx (heq ▸ hy)
  refine h.congr rfl rfl rfl rfl rfl (fun y hy => ?_) (fun y hy => ?_)
  · rw [setSta_of_ne _ _ (hne hy)]
  · rw [setSta_of_ne _ _ (hne hy)]

/-- A failed `_phl_alloc_stainfo_sw` leaves the tables as they were. -/
theorem alloc_failure (h : Tables H s) (hx : ¬ H x) {ringOk : Bool} {t : State}
    (heq : phlAllocStainfoSw₀ s x ringOk = (.failure, t)) : Tables H t := by
  obtain ⟨-, hcase⟩ | ⟨m, -, ⟨-, hcase⟩ | ⟨-, hcase⟩⟩ := allocStainfoSw₀_cases s x ringOk
  · rw [hcase] at heq
    obtain rfl := (Prod.mk.inj heq).2
    exact h.invalidate hx
  · rw [hcase] at heq
    cases (Prod.mk.inj heq).1
  · rw [hcase] at heq
    cases (Prod.mk.inj heq).1

/-- After an assignment that is taken back, the bitmaps and the pointer table are the old ones. -/
theorem clear_assign (h : Tables H s) (x : ℕ) (i : StaInfo) {m : ℕ}
    (hm : phlMacidIsUsed s.macidCtl.usedMap m = false) :
    let mc := (s.macidCtl.assign x i m).clear { i with macid := m }
    mc.usedMap = s.macidCtl.usedMap ∧ mc.wifiRoleUsedmap = s.macidCtl.wifiRoleUsedmap ∧
      mc.sta = s.macidCtl.sta := by
  have hnone := h.not_recorded hm
  refine ⟨macidMap_clr_set hm, ?_, ?_⟩
  · show Function.update (Function.update s.macidCtl.wifiRoleUsedmap _ _) _
      (phlMacidMapClr (Function.update s.macidCtl.wifiRoleUsedmap _ _ _) m) = _
    rw [Function.update_self, Function.update_idem, macidMap_clr_set (h.not_roleMap hnone _),
      Function.update_eq_self]
  · show Function.update (Function.update s.macidCtl.sta m (some x)) m none = _
    rw [Function.update_idem, ← hnone, Function.update_eq_self]

/-- A successful `_phl_alloc_stainfo_sw` adds the station to the ones that may hold a macid. -/
theorem alloc_success (h : Tables H s) (hx : ¬ H x) {ringOk : Bool} {t : State}
    (heq : phlAllocStainfoSw₀ s x ringOk = (.success, t)) :
    Tables (fun y => H y ∨ y = x) t := by
  obtain ⟨-, hcase⟩ | ⟨m, hfirst, ⟨-, hcase⟩ | ⟨-, hcase⟩⟩ := allocStainfoSw₀_cases s x ringOk
  · rw [hcase] at heq
    cases (Prod.mk.inj heq).1
  · obtain ⟨hlt, hunused⟩ := firstUnused_spec hfirst
    rw [hcase] at heq
    obtain rfl := (Prod.mk.inj heq).2
    exact h.assign hx hlt (h.not_recorded hunused)
  · obtain ⟨-, hunused⟩ := firstUnused_spec hfirst
    rw [hcase] at heq
    obtain rfl := (Prod.mk.inj heq).2
    obtain ⟨hused, hrole, hsta⟩ := h.clear_assign x (s.staInfo x) hunused
    refine Tables.add (H := H) ?_ ?_
    · exact (h.invalidate hx).congr hused hrole hsta rfl rfl (fun _ _ => rfl) (fun _ _ => rfl)
    · rw [setSta_self]
      exact le_refl s.macidCtl.maxNum

/-- After `_phl_free_stainfo_sw` the station holds no macid, and the other tables agree. -/
theorem free (h : Tables H s) (hx : H x) :
    Tables (fun y => H y ∧ y ≠ x) (phlFreeStainfoSw₀ s x).2 := by
  obtain ⟨hlt, hcase⟩ | ⟨hge, hcase⟩ := freeStainfoSw₀_cases h hx
  · rw [hcase]
    refine (h.clear hx hlt).remove ?_
    rw [setSta_self]
    exact le_refl s.macidCtl.maxNum
  · rw [hcase]
    refine (h.remove hge).congr rfl rfl rfl rfl rfl (fun y hy => ?_) (fun y hy => ?_)
    · rw [setSta_of_ne _ _ hy.2]
    · rw [setSta_of_ne _ _ hy.2]

end Tables

end Rtl88x2cu.Station
