import Rtl88x2cu.Lib.Run
import Rtl88x2cu.Trx.FlowCtrlCollect

/-!
# The order of a transmit round, and the pool of ring statuses

`phl_tx_flow_ctrl` moves the rings of the plans to `t_fctrl_result`. The management and the
high-queue rings of each station go to the head, so that these rings of several stations alternate;
the data rings follow, those of one tid together. `round_ok` says which rings a round serves, and
that no ring status is lost or doubled on the way.
-/

namespace Rtl88x2cu.Trx.FlowCtrl

open UsbTx (RingId TxRing)

/-! ## The list `t_fctrl_result` -/

/-- The tid of the ring of a status. -/
def tidOf (sts : RingStatus) : Fin 10 := sts.ring.tid

/-- `t_fctrl_result` is `front ++ data`, and `tid_entry` points into its data rings. -/
structure Sorted (front data : List RingStatus) (tidEntry : Fin 10 → Option ℕ) : Prop where
  frontTid : ∀ sts ∈ front, 8 ≤ tidOf sts
  dataTid : ∀ sts ∈ data, tidOf sts < 8
  grouped : Grouped tidOf data
  entryNone : ∀ tid, tidEntry tid = none → ∀ sts ∈ data, tidOf sts ≠ tid
  entrySome : ∀ tid id, tidEntry tid = some id → ∃ sts ∈ data, sts.id = id ∧ tidOf sts = tid

section
variable {front data : List RingStatus} {tidEntry : Fin 10 → Option ℕ} {sts : RingStatus}

theorem Sorted.nil : Sorted [] [] fun _ => none where
  frontTid := by simp
  dataTid := by simp
  grouped := trivial
  entryNone := by simp
  entrySome := by simp

/-- The new entry is the one that its tid points to. -/
theorem Sorted.entries (h : Sorted front data tidEntry) {data' : List RingStatus}
    (hperm : data'.Perm (data ++ [sts])) :
    (∀ tid, Function.update tidEntry (tidOf sts) (some sts.id) tid = none →
        ∀ sts' ∈ data', tidOf sts' ≠ tid) ∧
      ∀ tid id, Function.update tidEntry (tidOf sts) (some sts.id) tid = some id →
        ∃ sts' ∈ data', sts'.id = id ∧ tidOf sts' = tid := by
  have hmem (x : RingStatus) : x ∈ data' ↔ x ∈ data ∨ x = sts := by
    rw [hperm.mem_iff, List.mem_append, List.mem_singleton]
  constructor
  · intro tid hnone x hx
    by_cases htid : tid = tidOf sts
    · rw [htid, Function.update_self] at hnone
      exact absurd hnone (by simp)
    · rw [Function.update_of_ne htid] at hnone
      rcases (hmem x).mp hx with hx | rfl
      · exact h.entryNone tid hnone x hx
      · exact Ne.symm htid
  · intro tid id hsome
    by_cases htid : tid = tidOf sts
    · rw [htid, Function.update_self] at hsome
      exact ⟨sts, (hmem sts).mpr (.inr rfl), Option.some.inj hsome, htid.symm⟩
    · rw [Function.update_of_ne htid] at hsome
      obtain ⟨x, hx, hid, htidx⟩ := h.entrySome tid id hsome
      exact ⟨x, (hmem x).mpr (.inl hx), hid, htidx⟩

/-- One data ring: to the end if it is the first one of its tid, else behind the last one. -/
theorem Sorted.addByTid (h : Sorted front data tidEntry)
    (hids : ((front ++ data).map (·.id)).Nodup) (htid : tidOf sts < 8) :
    ∃ data', data'.Perm (data ++ [sts]) ∧
      addByTid (front ++ data, tidEntry) sts =
        (front ++ data', Function.update tidEntry (tidOf sts) (some sts.id)) ∧
      Sorted front data' (Function.update tidEntry (tidOf sts) (some sts.id)) := by
  obtain ⟨data', hperm, heq, hgrouped⟩ : ∃ data', data'.Perm (data ++ [sts]) ∧
      (FlowCtrl.addByTid (front ++ data, tidEntry) sts).1 = front ++ data' ∧
      Grouped tidOf data' := by
    cases hentry : tidEntry (tidOf sts) with
    | none =>
      refine ⟨data ++ [sts], .refl _, ?_, h.grouped.concat (h.entryNone _ hentry)⟩
      have hentry' : tidEntry sts.ring.tid = none := hentry
      simp only [FlowCtrl.addByTid, hentry', List.append_assoc]
    | some id =>
      obtain ⟨last, hlast, rfl, htidLast⟩ := h.entrySome _ _ hentry
      obtain ⟨l₁, l₂, rfl⟩ := List.append_of_mem hlast
      -- no other status has the same place in the pool
      have hfirst : ∀ x ∈ front ++ l₁, ¬ x.id = last.id := by
        intro x hx hid
        rw [← List.append_assoc, List.map_append, List.nodup_append] at hids
        exact hids.2.2 x.id (List.mem_map_of_mem hx) last.id (by simp) hid
      refine ⟨l₁ ++ last :: sts :: l₂, ?_, ?_, h.grouped.insert htidLast.symm⟩
      · have hmove : (last :: sts :: l₂).Perm (last :: (l₂ ++ [sts])) :=
          (List.perm_append_singleton sts l₂).symm.cons last
        rw [List.append_assoc]
        exact hmove.append_left l₁
      · have hentry' : tidEntry sts.ring.tid = some last.id := hentry
        simp only [FlowCtrl.addByTid, hentry']
        rw [← List.append_assoc, insertAfter_append hfirst rfl, List.append_assoc]
  refine ⟨data', hperm, Prod.ext heq rfl, ⟨h.frontTid, fun x hx => ?_, hgrouped,
    (h.entries hperm).1, (h.entries hperm).2⟩⟩
  rcases List.mem_append.mp (hperm.mem_iff.mp hx) with hx | hx
  · exact h.dataTid x hx
  · exact List.mem_singleton.mp hx ▸ htid

theorem Sorted.foldl (l : List RingStatus) (h : Sorted front data tidEntry)
    (hids : ((front ++ (data ++ l)).map (·.id)).Nodup) (hl : ∀ sts ∈ l, tidOf sts < 8) :
    ∃ data' tidEntry', data'.Perm (data ++ l) ∧
      l.foldl FlowCtrl.addByTid (front ++ data, tidEntry) = (front ++ data', tidEntry') ∧
      Sorted front data' tidEntry' := by
  induction l generalizing data tidEntry with
  | nil => exact ⟨data, tidEntry, by simp, rfl, h⟩
  | cons sts l ih =>
    rw [List.forall_mem_cons] at hl
    have hfirst : ((front ++ data).map (·.id)).Nodup := by
      rw [← List.append_assoc, List.map_append] at hids
      exact (List.nodup_append.mp hids).1
    obtain ⟨data₁, hperm₁, heq₁, hsorted₁⟩ := h.addByTid hfirst hl.1
    have hsplit : (data₁ ++ l).Perm (data ++ sts :: l) := by
      have := hperm₁.append_right l
      rwa [List.append_assoc] at this
    have hids₁ : ((front ++ (data₁ ++ l)).map (·.id)).Nodup :=
      ((hsplit.append_left front).map _).nodup_iff.mpr hids
    obtain ⟨data', tidEntry', hperm, heq, hsorted⟩ := ih hsorted₁ hids₁ hl.2
    exact ⟨data', tidEntry', hperm.trans hsplit, by rw [List.foldl_cons, heq₁, heq], hsorted⟩

theorem HeadRing.forall {flag : Bool} {tid : Fin 10} {l : List RingStatus}
    (h : HeadRing flag tid l) (htid : 8 ≤ tid) : ∀ sts ∈ l, 8 ≤ tidOf sts := by
  cases flag with
  | false =>
    obtain rfl : l = [] := h
    simp
  | true =>
    obtain ⟨sts, rfl, rfl⟩ := h
    exact List.forall_mem_singleton.mpr htid

/-- The rings of a station. -/
theorem Sorted.movePlan {a : ℕ} {plan : TxPlan} (h : Sorted front data tidEntry)
    (hplan : Planned a plan)
    (hids : ((front ++ data ++ plan.sortedRing).map (·.id)).Nodup) :
    ∃ front' data' tidEntry', (front' ++ data').Perm (front ++ data ++ plan.sortedRing) ∧
      movePlan plan (front ++ data) tidEntry = (front' ++ data', tidEntry') ∧
      Sorted front' data' tidEntry' := by
  obtain ⟨hiq, mgnt, new, hsorted, hhiq, hmgnt, hnew⟩ := hplan.order
  -- the two head entries
  have hhead : FlowCtrl.movePlan plan (front ++ data) tidEntry =
      new.foldl FlowCtrl.addByTid ((mgnt ++ (hiq ++ front)) ++ data, tidEntry) := by
    unfold FlowCtrl.movePlan
    rw [hsorted]
    cases hflag : plan.hasHiq with
    | false =>
      rw [hflag] at hhiq
      obtain rfl : hiq = [] := hhiq
      cases hflag' : plan.hasMgnt with
      | false =>
        rw [hflag'] at hmgnt
        obtain rfl : mgnt = [] := hmgnt
        rfl
      | true =>
        rw [hflag'] at hmgnt
        obtain ⟨sts, rfl, -⟩ := hmgnt
        rfl
    | true =>
      rw [hflag] at hhiq
      obtain ⟨sts, rfl, -⟩ := hhiq
      cases hflag' : plan.hasMgnt with
      | false =>
        rw [hflag'] at hmgnt
        obtain rfl : mgnt = [] := hmgnt
        rfl
      | true =>
        rw [hflag'] at hmgnt
        obtain ⟨sts', rfl, -⟩ := hmgnt
        rfl
  have hfront : ∀ sts ∈ mgnt ++ (hiq ++ front), 8 ≤ tidOf sts := by
    simp only [List.forall_mem_append]
    exact ⟨hmgnt.forall (by decide), hhiq.forall (by decide), h.frontTid⟩
  have hstart : Sorted (mgnt ++ (hiq ++ front)) data tidEntry :=
    ⟨hfront, h.dataTid, h.grouped, h.entryNone, h.entrySome⟩
  have hperm : (mgnt ++ (hiq ++ front) ++ (data ++ new)).Perm
      (front ++ data ++ plan.sortedRing) := by
    rw [hsorted, List.perm_iff_count]
    intro sts
    simp only [List.count_append]
    omega
  obtain ⟨data', tidEntry', hdata, heq, hsorted'⟩ :=
    hstart.foldl new ((hperm.map _).nodup_iff.mpr hids) hnew
  exact ⟨_, data', tidEntry', (hdata.append_left _).trans hperm, hhead.trans heq, hsorted'⟩

end

/-! ## The stations -/

/-- The places of the pool that are in one of the lists. -/
def listed (s : State) : List ℕ :=
  s.idle ++ ((plans s).map (·.id) ++ s.tFctrlResult.map (·.id))

/-- The rings that a station gives to `t_fctrl_result`. -/
def awakeRings (s : State) (a : ℕ) : List RingStatus :=
  if (s.txPlan a).sleep then [] else (s.txPlan a).sortedRing

section
variable {s s' : State} {a : ℕ} {as : List ℕ} {tidEntry : Fin 10 → Option ℕ}

theorem foldl_release (l : List RingStatus) (s : State) :
    l.foldl phlReleaseRingSts s = { s with idle := s.idle ++ l.map (·.id) } := by
  induction l generalizing s with
  | nil => simp
  | cons sts l ih =>
    rw [List.foldl_cons, ih]
    simp [phlReleaseRingSts]

theorem resetTxPlan_eq (s : State) (a : ℕ) :
    resetTxPlan s a = { s with
      idle := s.idle ++ (s.txPlan a).sortedRing.map (·.id)
      txPlan := Function.update s.txPlan a {} } := by
  unfold resetTxPlan
  rw [foldl_release]

/-- In front of the turn of the stations `as`. -/
structure Moving (s : State) (as : List ℕ) (tidEntry : Fin 10 → Option ℕ) : Prop where
  staList : s.staList = as
  nodup : as.Nodup
  planned : ∀ a ∈ as, Planned a (s.txPlan a)
  rest : ∀ a ∉ as, s.txPlan a = { sleep := (s.txPlan a).sleep }
  sorted : ∃ front data, s.tFctrlResult = front ++ data ∧ Sorted front data tidEntry
  distinct : (listed s).Nodup

/-- What the turn of some stations does. -/
structure Moved (s s' : State) (as : List ℕ) : Prop where
  conserved : (listed s').Perm (listed s)
  result : s'.tFctrlResult.Perm (s.tFctrlResult ++ as.flatMap (awakeRings s))
  ring : s'.ring = s.ring
  macid : s'.macid = s.macid
  tRingList : s'.tRingList = s.tRingList

theorem Moving.plans_eq (h : Moving s (a :: as) tidEntry) :
    plans s = (s.txPlan a).sortedRing ++ as.flatMap fun b => (s.txPlan b).sortedRing := by
  rw [plans, h.staList, List.flatMap_cons]

theorem Moving.update_eq (h : Moving s (a :: as) tidEntry) {b : ℕ} (hb : b ∈ as) (plan : TxPlan) :
    Function.update s.txPlan a plan b = s.txPlan b :=
  Function.update_of_ne (ne_of_mem_of_not_mem hb (List.nodup_cons.mp h.nodup).1) _ _

/-- The turn of one station. -/
theorem Moving.step (h : Moving s (a :: as) tidEntry) :
    Moving (flowCtrlSta (s, tidEntry) a).1 as (flowCtrlSta (s, tidEntry) a).2 ∧
      Moved s (flowCtrlSta (s, tidEntry) a).1 [a] ∧
      ∀ b ∈ as, (flowCtrlSta (s, tidEntry) a).1.txPlan b = s.txPlan b := by
  obtain ⟨hnotin, hnodup⟩ := List.nodup_cons.mp h.nodup
  obtain ⟨front, data, hresult, hsorted⟩ := h.sorted
  have herase : s.staList.erase a = as := by rw [h.staList, List.erase_cons_head]
  have hplans := h.plans_eq
  have hother (b : ℕ) (hb : b ∈ as) (plan : TxPlan) : Function.update s.txPlan a plan b =
    s.txPlan b :=
    h.update_eq hb plan
  have hplanned (b : ℕ) (hb : b ∈ as) : Planned b (s.txPlan b) :=
    h.planned b (List.mem_cons_of_mem a hb)
  have hrest (b : ℕ) (hb : b ∉ as) : Function.update s.txPlan a {} b =
      { sleep := (Function.update s.txPlan a {} b).sleep } := by
    by_cases hba : b = a
    · rw [hba, Function.update_self]
    · rw [Function.update_of_ne hba]
      exact h.rest b (List.not_mem_cons_of_ne_of_not_mem hba hb)
  cases hsleep : (s.txPlan a).sleep with
  | true =>
    -- the statuses go back to the pool
    have heq : flowCtrlSta (s, tidEntry) a = ({ s with
        idle := s.idle ++ (s.txPlan a).sortedRing.map (·.id)
        staList := as
        txPlan := Function.update s.txPlan a {} }, tidEntry) := by
      unfold flowCtrlSta
      simp only [hsleep, if_true, resetTxPlan_eq, herase]
    rw [heq]
    have hlisted : listed { s with
        idle := s.idle ++ (s.txPlan a).sortedRing.map (·.id)
        staList := as
        txPlan := Function.update s.txPlan a {} } = listed s := by
      have hsame : (as.flatMap fun b => (Function.update s.txPlan a {} b).sortedRing) =
          as.flatMap fun b => (s.txPlan b).sortedRing :=
        List.flatMap_congr fun b hb => by rw [hother b hb]
      unfold listed
      rw [hplans, plans]
      simp only [hsame, List.map_append, List.append_assoc]
    refine ⟨⟨rfl, hnodup, fun b hb => ?_, hrest, ⟨front, data, hresult, hsorted⟩, ?_⟩,
      ⟨.of_eq hlisted, ?_, rfl, rfl, rfl⟩, fun b hb => hother b hb _⟩
    · simp only [hother b hb]
      exact hplanned b hb
    · rw [hlisted]
      exact h.distinct
    · simp [awakeRings, hsleep]
  | false =>
    have hids : ((front ++ data ++ (s.txPlan a).sortedRing).map (·.id)).Nodup := by
      have hperm : (listed s).Perm (((front ++ data ++ (s.txPlan a).sortedRing).map (·.id)) ++
          (s.idle ++ (as.flatMap fun b => (s.txPlan b).sortedRing).map (·.id))) := by
        rw [List.perm_iff_count]
        intro id
        simp only [listed, hplans, hresult, List.map_append, List.count_append]
        omega
      exact (List.nodup_append.mp (hperm.nodup_iff.mp h.distinct)).1
    obtain ⟨front', data', tidEntry', hperm, hmove, hsorted'⟩ :=
      hsorted.movePlan (h.planned a (List.mem_cons_self ..)) hids
    have heq : flowCtrlSta (s, tidEntry) a = ({ s with
        staList := as
        tFctrlResult := front' ++ data'
        txPlan := Function.update s.txPlan a {} }, tidEntry') := by
      unfold flowCtrlSta
      simp only [hsleep, hresult, hmove, resetTxPlan_eq, herase, Function.update_self,
        Function.update_idem, List.map_nil, List.append_nil]
      rfl
    rw [heq]
    have hlisted : (listed { s with
        staList := as
        tFctrlResult := front' ++ data'
        txPlan := Function.update s.txPlan a {} }).Perm (listed s) := by
      have hsame : (as.flatMap fun b => (Function.update s.txPlan a {} b).sortedRing) =
          as.flatMap fun b => (s.txPlan b).sortedRing :=
        List.flatMap_congr fun b hb => by rw [hother b hb]
      have hcount := List.perm_iff_count.mp (hperm.map (·.id))
      rw [List.perm_iff_count]
      intro id
      have hid := hcount id
      unfold listed
      rw [hplans, plans, hresult]
      simp only [hsame, List.map_append, List.count_append] at hid ⊢
      omega
    refine ⟨⟨rfl, hnodup, fun b hb => ?_, hrest, ⟨front', data', rfl, hsorted'⟩,
      hlisted.nodup_iff.mpr h.distinct⟩, ⟨hlisted, ?_, rfl, rfl, rfl⟩, fun b hb => hother b hb _⟩
    · simp only [hother b hb]
      exact hplanned b hb
    · rw [hresult]
      simpa [awakeRings, hsleep] using hperm

/-- The turns of all stations. -/
theorem Moving.foldl (h : Moving s as tidEntry) :
    Moving (as.foldl flowCtrlSta (s, tidEntry)).1 [] (as.foldl flowCtrlSta (s, tidEntry)).2 ∧
      Moved s (as.foldl flowCtrlSta (s, tidEntry)).1 as := by
  induction as generalizing s tidEntry with
  | nil => exact ⟨h, .refl _, by simp, rfl, rfl, rfl⟩
  | cons a as ih =>
    obtain ⟨hnext, hmoved, hsame⟩ := h.step
    obtain ⟨hend, hrest⟩ := ih hnext
    have hawake : as.flatMap (awakeRings (flowCtrlSta (s, tidEntry) a).1) =
        as.flatMap (awakeRings s) :=
      List.flatMap_congr fun b hb => by rw [awakeRings, awakeRings, hsame b hb]
    have hfirst := hmoved.result
    have hothers := hrest.result
    rw [List.flatMap_singleton] at hfirst
    rw [hawake] at hothers
    refine ⟨hend, hrest.conserved.trans hmoved.conserved, ?_, hrest.ring.trans hmoved.ring,
      hrest.macid.trans hmoved.macid, hrest.tRingList.trans hmoved.tRingList⟩
    rw [List.flatMap_cons, ← List.append_assoc]
    exact hothers.trans (hfirst.append_right _)

end

/-! ## The round -/

/-- The state between two rounds. -/
structure Inv (s : State) : Prop where
  idle : s.idle.Perm (List.range maxPhlRingStatusNumber)
  staList : s.staList = []
  tFctrlResult : s.tFctrlResult = []
  nodup : s.tRingList.Nodup
  plan : ∀ a, s.txPlan a = { sleep := (s.txPlan a).sleep }

/-- The station of the ring does not sleep. -/
def awake (s : State) (k : RingId) : Bool := !(s.txPlan k.ringList).sleep

/-- The rings with requests that get a status: as many as there are in the pool. -/
def chosen (s : State) : List RingId :=
  ((scan s).filter (busy s)).take maxPhlRingStatusNumber

/-- `t_fctrl_result` after `phl_tx_flow_ctrl`, in the state it is in then. -/
def afterFlowCtrl (s : State) : State := phlTxFlowCtrl (phlCheckXmitRingResource s)

/-- Every entry of the pool is in exactly one list. -/
def Conserved (s : State) : Prop := (listed s).Perm (List.range maxPhlRingStatusNumber)

section
variable {s : State}

theorem map_id_gathered (s : State) (ks : List RingId) :
    (gathered s ks).map (·.id) = s.idle.take (ks.filter (busy s)).length := by
  unfold gathered
  generalize ks.filter (busy s) = bs
  generalize s.idle = idle
  induction bs generalizing idle with
  | nil => simp
  | cons b bs ih =>
    cases idle with
    | nil => simp
    | cons id idle => simp [stsOf, ih]

theorem map_ring_gathered (s : State) (ks : List RingId) :
    (gathered s ks).map (·.ring) = (ks.filter (busy s)).take s.idle.length := by
  unfold gathered
  generalize ks.filter (busy s) = bs
  generalize s.idle = idle
  induction bs generalizing idle with
  | nil => simp
  | cons b bs ih =>
    cases idle with
    | nil => simp
    | cons id idle => simp [stsOf, ih]

theorem mem_gathered {ks : List RingId} {sts : RingStatus} (h : sts ∈ gathered s ks) :
    sts.macid = s.macid sts.ring.ringList ∧ sts.reqBusy = avail (s.ring sts.ring) := by
  unfold gathered at h
  obtain ⟨i, hi, rfl⟩ := List.mem_iff_getElem.mp h
  rw [List.getElem_zipWith]
  exact ⟨rfl, rfl⟩

theorem mem_ringsOf {a : ℕ} {k : RingId} : k ∈ ringsOf a ↔ k.ringList = a := by
  unfold ringsOf
  rw [List.mem_map]
  constructor
  · rintro ⟨i, -, rfl⟩
    rfl
  · rintro rfl
    exact ⟨k.tid, List.mem_finRange _, rfl⟩

theorem scan_nodup (h : s.tRingList.Nodup) : (scan s).Nodup := by
  unfold scan
  rw [List.nodup_flatMap]
  refine ⟨fun a _ => ?_, h.imp fun {a b} hab k ha hb => ?_⟩
  · exact (List.nodup_finRange 10).map fun i j hij => (RingId.mk.inj hij).2
  · exact hab ((mem_ringsOf.mp ha).symm.trans (mem_ringsOf.mp hb))

theorem Inv.collecting (h : Inv s) : Collecting s where
  nodup := by simp [h.staList]
  planned := by simp [h.staList]
  rest := fun a _ => h.plan a

/-- What has been collected. -/
theorem Inv.collect (h : Inv s) :
    Moving (phlCheckXmitRingResource s) (phlCheckXmitRingResource s).staList (fun _ => none) ∧
      Same s (phlCheckXmitRingResource s) ∧
      (plans (phlCheckXmitRingResource s)).Perm (gathered s (scan s)) ∧
      Conserved (phlCheckXmitRingResource s) := by
  have hscan : Scanned s (phlCheckXmitRingResource s) s.tRingList :=
    h.collecting.foldl s.tRingList h.nodup (by simp [h.staList])
  have hresult : (phlCheckXmitRingResource s).tFctrlResult = [] :=
    hscan.same.tFctrlResult.trans h.tFctrlResult
  have hplans : (plans (phlCheckXmitRingResource s)).Perm (gathered s (scan s)) := by
    have hnone : plans s = [] := by rw [plans, h.staList]; rfl
    have := hscan.plans
    rwa [hnone, List.nil_append] at this
  have hcons : Conserved (phlCheckXmitRingResource s) := by
    have hids := hplans.map (·.id)
    rw [map_id_gathered] at hids
    have hsplit : (s.idle.drop ((scan s).filter (busy s)).length ++
        s.idle.take ((scan s).filter (busy s)).length).Perm s.idle :=
      List.perm_append_comm.trans (.of_eq (List.take_append_drop _ _))
    unfold Conserved listed
    rw [hresult, List.map_nil, List.append_nil, hscan.idle]
    exact ((hids.append_left _).trans hsplit).trans h.idle
  refine ⟨⟨rfl, hscan.collecting.nodup, hscan.collecting.planned, hscan.collecting.rest,
    ⟨[], [], hresult, .nil⟩, hcons.nodup_iff.mpr List.nodup_range⟩, hscan.same, hplans, hcons⟩

/-- What flow control makes of it. -/
theorem Inv.flowCtrl (h : Inv s) :
    (∃ tidEntry, Moving (afterFlowCtrl s) [] tidEntry) ∧ Conserved (afterFlowCtrl s) ∧
      (afterFlowCtrl s).tFctrlResult.Perm
        ((gathered s (scan s)).filter fun sts => awake s sts.ring) ∧
      (afterFlowCtrl s).tRingList = s.tRingList := by
  obtain ⟨hmoving, hsame, hplans, hcons⟩ := h.collect
  obtain ⟨hend, hmoved⟩ := hmoving.foldl
  have hresult := hmoved.result
  rw [hsame.tFctrlResult, h.tFctrlResult, List.nil_append] at hresult
  refine ⟨⟨_, hend⟩, hmoved.conserved.trans hcons, ?_, hmoved.tRingList.trans hsame.tRingList⟩
  have hfilter : (phlCheckXmitRingResource s).staList.flatMap
      (awakeRings (phlCheckXmitRingResource s)) =
        (plans (phlCheckXmitRingResource s)).filter fun sts => awake s sts.ring := by
    unfold plans
    rw [List.filter_flatMap]
    refine List.flatMap_congr fun a ha => ?_
    -- all rings of a plan are of its station
    have hstation := (hmoving.planned a ha).station
    unfold awakeRings
    rw [hsame.sleep]
    cases hsleep : (s.txPlan a).sleep with
    | true =>
      exact (List.filter_eq_nil_iff.mpr fun sts hsts => by
        simp [awake, hstation sts hsts, hsleep]).symm
    | false =>
      exact (List.filter_eq_self.mpr fun sts hsts => by
        simp [awake, hstation sts hsts, hsleep]).symm
  rw [hfilter] at hresult
  exact hresult.trans (hplans.filter _)

/-- The first rings of `t_fctrl_result` are served. -/
theorem serveRing_iterate (n : ℕ) (s : State) :
    serveRing^[n] s = { s with
      idle := s.idle ++ (s.tFctrlResult.take n).map (·.id)
      tFctrlResult := s.tFctrlResult.drop n } := by
  induction n generalizing s with
  | zero => simp
  | succ n ih =>
    rw [Function.iterate_succ_apply, ih]
    unfold serveRing
    cases hresult : s.tFctrlResult with
    | nil => simp [hresult]
    | cons sts rest => simp [phlReleaseRingSts]

theorem serveRing_conserved (n : ℕ) (h : Conserved s) : Conserved (serveRing^[n] s) := by
  have hperm : (listed (serveRing^[n] s)).Perm (listed s) := by
    have hsplit : s.tFctrlResult.map (·.id) =
        (s.tFctrlResult.take n).map (·.id) ++ (s.tFctrlResult.drop n).map (·.id) := by
      rw [← List.map_append, List.take_append_drop]
    rw [serveRing_iterate, List.perm_iff_count]
    intro id
    unfold listed plans
    rw [hsplit]
    simp only [List.count_append]
    omega
  exact hperm.trans h

/-- If the lists are empty, the whole pool is idle. -/
theorem Conserved.idle (h : Conserved s) (hsta : s.staList = []) (hresult : s.tFctrlResult = []) :
    s.idle.Perm (List.range maxPhlRingStatusNumber) := by
  unfold Conserved listed plans at h
  rw [hsta, hresult] at h
  simpa using h

/-- A round ends as it has begun. -/
theorem Inv.txCallbackUsb (h : Inv s) : Inv (txCallbackUsb s) := by
  obtain ⟨hmoving, hsame, -, hcons⟩ := h.collect
  unfold FlowCtrl.txCallbackUsb
  dsimp only
  split
  · next hnil =>
    have hresult := hsame.tFctrlResult.trans h.tFctrlResult
    refine ⟨hcons.idle hnil hresult, hnil, hresult, hsame.tRingList ▸ h.nodup,
      fun a => hmoving.rest a ?_⟩
    rw [hnil]
    exact List.not_mem_nil
  · obtain ⟨⟨tidEntry, hend⟩, hcons', -, hring⟩ := h.flowCtrl
    have hserved := serveRing_conserved (afterFlowCtrl s).tFctrlResult.length hcons'
    have hiter := serveRing_iterate (afterFlowCtrl s).tFctrlResult.length (afterFlowCtrl s)
    show Inv (serveRing^[(afterFlowCtrl s).tFctrlResult.length] (afterFlowCtrl s))
    have hsta : (serveRing^[(afterFlowCtrl s).tFctrlResult.length] (afterFlowCtrl s)).staList =
      [] :=
      (congrArg State.staList hiter).trans hend.staList
    have hresult : (serveRing^[(afterFlowCtrl s).tFctrlResult.length]
        (afterFlowCtrl s)).tFctrlResult = [] :=
      (congrArg State.tFctrlResult hiter).trans List.drop_length
    refine ⟨hserved.idle hsta hresult, hsta, hresult, ?_, fun a => ?_⟩
    · rw [hiter]
      exact hring ▸ h.nodup
    · rw [hiter]
      exact hend.rest a List.not_mem_nil

theorem Inv.step {s' : State} {e : Event} (h : Inv s) (hstep : FlowCtrl.step s e = some s') :
    Inv s' := by
  cases e with
  | callback =>
    obtain rfl := Option.some.inj hstep
    exact h.txCallbackUsb
  | setRing k ring =>
    obtain rfl := Option.some.inj hstep
    exact ⟨h.idle, h.staList, h.tFctrlResult, h.nodup, h.plan⟩
  | setSleep a sleep =>
    obtain rfl := Option.some.inj hstep
    refine ⟨h.idle, h.staList, h.tFctrlResult, h.nodup, fun b => ?_⟩
    by_cases hb : b = a
    · simp only [hb, Function.update_self]
      rw [h.plan a]
    · simp only [Function.update_of_ne hb]
      exact h.plan b
  | register a macid =>
    simp only [FlowCtrl.step] at hstep
    split at hstep
    · cases hstep
    · next hnew =>
      obtain rfl := Option.some.inj hstep
      refine ⟨h.idle, h.staList, h.tFctrlResult, ?_, fun b => ?_⟩
      · exact List.nodup_append.mpr ⟨h.nodup, List.nodup_singleton a,
          fun x hx y hy hxy => hnew (List.mem_singleton.mp hy ▸ hxy ▸ hx)⟩
      · by_cases hb : b = a
        · simp only [hb, Function.update_self]
        · simp only [Function.update_of_ne hb]
          exact h.plan b
  | deregister macid =>
    obtain rfl := Option.some.inj hstep
    exact ⟨h.idle, h.staList, h.tFctrlResult, h.nodup.sublist List.eraseP_sublist, h.plan⟩

theorem inv_init : Inv init where
  idle := .refl _
  staList := rfl
  tFctrlResult := rfl
  nodup := List.nodup_nil
  plan := fun _ => rfl

/-- Between any two rounds. -/
theorem run_inv {es : List Event} (h : run FlowCtrl.step init es = some s) : Inv s := by
  have hok : Guarded FlowCtrl.step (fun _ _ => True) init es :=
    guarded_of_forall (fun _ _ => trivial) init
  exact run_preserves Inv (fun _ _ _ hinv _ hstep => hinv.step hstep) inv_init hok h

/-! ## Main result -/

/-- What a round does in this state. -/
structure RoundOk (s : State) : Prop where
  /-- Each ring that has got a status, and whose station does not sleep, is served once. -/
  rings : ((afterFlowCtrl s).tFctrlResult.map (·.ring)).Perm ((chosen s).filter (awake s))
  nodup : ((afterFlowCtrl s).tFctrlResult.map (·.ring)).Nodup
  status : ∀ sts ∈ (afterFlowCtrl s).tFctrlResult,
    sts.macid = s.macid sts.ring.ringList ∧ sts.reqBusy = avail (s.ring sts.ring)
  /-- The management and high-queue rings come first, then the data rings, tid by tid. -/
  order : ∃ front data, (afterFlowCtrl s).tFctrlResult = front ++ data ∧
    (∀ sts ∈ front, 8 ≤ tidOf sts) ∧ (∀ sts ∈ data, tidOf sts < 8) ∧ Grouped tidOf data
  before : Conserved s
  collected : Conserved (phlCheckXmitRingResource s)
  /-- However many rings have been served. -/
  served : ∀ n, Conserved (serveRing^[n] (afterFlowCtrl s))

/-- In every round of every run. -/
theorem round_ok {es : List Event} (h : run FlowCtrl.step init es = some s) : RoundOk s := by
  have hinv := run_inv h
  obtain ⟨-, -, -, hcollected⟩ := hinv.collect
  obtain ⟨⟨_, hend⟩, hcons, hresult, -⟩ := hinv.flowCtrl
  obtain ⟨front, data, heq, hsorted⟩ := hend.sorted
  have hlen : s.idle.length = maxPhlRingStatusNumber := by
    rw [hinv.idle.length_eq, List.length_range]
  have hrings : ((afterFlowCtrl s).tFctrlResult.map (·.ring)).Perm
      ((chosen s).filter (awake s)) := by
    have hmap := hresult.map (·.ring)
    rw [show (fun sts : RingStatus => awake s sts.ring) = awake s ∘ (·.ring) from rfl,
      ← List.filter_map, map_ring_gathered, hlen] at hmap
    exact hmap
  have hnodup : ((chosen s).filter (awake s)).Nodup :=
    (((scan_nodup hinv.nodup).filter _).sublist (List.take_sublist _ _)).filter _
  refine ⟨hrings, hrings.nodup_iff.mpr hnodup, fun sts hsts => ?_,
    ⟨front, data, heq, hsorted.frontTid, hsorted.dataTid, hsorted.grouped⟩, ?_, hcollected,
    fun n => serveRing_conserved n hcons⟩
  · exact mem_gathered (List.mem_of_mem_filter (hresult.mem_iff.mp hsts))
  · unfold Conserved listed plans
    rw [hinv.staList, hinv.tFctrlResult]
    simpa using hinv.idle

/-- If the pool is large enough, every ring with requests of a station that does not sleep is
served. -/
theorem RoundOk.all (h : RoundOk s)
    (hpool : ((scan s).filter (busy s)).length ≤ maxPhlRingStatusNumber) :
    ((afterFlowCtrl s).tFctrlResult.map (·.ring)).Perm
      ((scan s).filter fun k => awake s k && busy s k) := by
  have hrings := h.rings
  rw [chosen, List.take_of_length_le hpool, List.filter_filter] at hrings
  exact hrings

/-- The order in which a round serves the rings is one that the transmit handler can start with. -/
theorem RoundOk.checkRings (h : RoundOk s) {u : UsbTx.State} (hring : u.ring = s.ring)
    (hlife : ∀ a ∈ s.tRingList, u.life a = .registered) (hadd : u.addPc = .idle)
    (hpc : u.pc = .idle) :
    (UsbTx.checkRings u ((afterFlowCtrl s).tFctrlResult.map (·.ring))).isSome = true := by
  have hguard : ∀ k ∈ (afterFlowCtrl s).tFctrlResult.map (·.ring),
      u.life k.ringList = .registered ∧ 0 < avail (u.ring k) := by
    intro k hk
    have hchosen := List.mem_of_mem_filter (h.rings.mem_iff.mp hk)
    obtain ⟨hscan, hbusy⟩ := List.mem_filter.mp (List.mem_of_mem_take hchosen)
    obtain ⟨a, ha, hka⟩ := List.mem_flatMap.mp hscan
    rw [hring, mem_ringsOf.mp hka]
    exact ⟨hlife a ha, Nat.pos_of_ne_zero (of_decide_eq_true hbusy)⟩
  unfold UsbTx.checkRings
  rw [if_pos ⟨hadd, h.nodup, hguard⟩, hpc]
  rfl

end

/-! ## Two stations, and more rings than ring statuses -/

/-- A ring with one request. -/
def oneReq : TxRing where
  entry := fun _ => some ⟨1, true, .normal, .data, false, 100, []⟩
  coreIdx := 1
  phlIdx := 0
  phlNextIdx := 0

/-- The stations `0` to `n - 1` come, and there is a request in each of the rings `tids`. -/
def arrivals (n : ℕ) (tids : List (Fin 10)) : List Event :=
  (List.range n).flatMap fun a =>
    .register a a :: tids.map fun tid => .setRing ⟨a, tid⟩ oneReq

/-- With two stations the management rings do not stand together, and with seven stations not all
rings get a status. -/
theorem arrivals_break :
    (∃ s, run step init (arrivals 2 [ringCatMgnt, ringCatHiq]) = some s ∧
      ¬ Grouped tidOf (afterFlowCtrl s).tFctrlResult) ∧
    ∃ s, run step init (arrivals 7 (List.finRange 10)) = some s ∧
      ¬ ((afterFlowCtrl s).tFctrlResult.map (·.ring)).Perm
        ((scan s).filter fun k => awake s k && busy s k) := by
  constructor
  · have hend : (run step init (arrivals 2 [ringCatMgnt, ringCatHiq])).map
        (fun s => decide (Grouped tidOf (afterFlowCtrl s).tFctrlResult)) = some false := by
      decide +kernel
    obtain ⟨s, hs, hgrouped⟩ := Option.map_eq_some_iff.mp hend
    exact ⟨s, hs, of_decide_eq_false hgrouped⟩
  · have hend : (run step init (arrivals 7 (List.finRange 10))).map
        (fun s => ((afterFlowCtrl s).tFctrlResult.length,
          ((scan s).filter fun k => awake s k && busy s k).length)) = some (64, 70) := by
      decide +kernel
    obtain ⟨s, hs, hlen⟩ := Option.map_eq_some_iff.mp hend
    obtain ⟨hserved, hwaiting⟩ := Prod.mk.inj hlen
    refine ⟨s, hs, fun hperm => ?_⟩
    have := hperm.length_eq
    rw [List.length_map, hserved, hwaiting] at this
    omega

/-- A round with two stations that have one data ring each. -/
theorem roundOk_arrivals :
    ∃ s, run step init (arrivals 2 [0]) = some s ∧ RoundOk s ∧ busy s ⟨1, 0⟩ = true := by
  have hend : (run step init (arrivals 2 [0])).map (fun s => busy s ⟨1, 0⟩) = some true := by
    decide +kernel
  obtain ⟨s, hs, hbusy⟩ := Option.map_eq_some_iff.mp hend
  exact ⟨s, hs, round_ok hs, hbusy⟩

end Rtl88x2cu.Trx.FlowCtrl
