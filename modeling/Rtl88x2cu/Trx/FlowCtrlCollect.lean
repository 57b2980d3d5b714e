import Mathlib.Algebra.Order.Ring.Nat
import Mathlib.Data.List.FinRange
import Rtl88x2cu.Trx.FlowCtrl

/-!
# Collecting the rings of a round

`phl_check_xmit_ring_resource` gives a ring status to the rings with waiting requests, in the order
of the stations and of the ring categories, until the pool is empty. `gathered` is the list of these
statuses; the theorems say that the plans hold them, each in the plan of its station, and that the
entry of the management and of the high queue is where `phl_tx_flow_ctrl` looks for it.
-/

namespace Rtl88x2cu.Trx.FlowCtrl

open UsbTx (RingId TxRing)

/-! ## What is collected -/

/-- There are requests in the ring. -/
def busy (s : State) (k : RingId) : Bool := decide (avail (s.ring k) ≠ 0)

/-- The status of a ring, in this place of the pool. -/
def stsOf (s : State) (id : ℕ) (k : RingId) : RingStatus :=
  ⟨id, s.macid k.ringList, avail (s.ring k), k⟩

/-- The statuses of the rings `ks`. Those at the end get none if the pool is too small. -/
def gathered (s : State) (ks : List RingId) : List RingStatus :=
  List.zipWith (stsOf s) s.idle (ks.filter (busy s))

/-- The rings of a station. -/
def ringsOf (a : ℕ) : List RingId := (List.finRange 10).map (⟨a, ·⟩)

/-- The rings in the order in which they are looked at. -/
def scan (s : State) : List RingId := s.tRingList.flatMap ringsOf

/-- What a ring status depends on, and what no part of the collection changes. -/
structure Same (s s' : State) : Prop where
  avail : ∀ k, avail (s'.ring k) = avail (s.ring k)
  macid : s'.macid = s.macid
  tRingList : s'.tRingList = s.tRingList
  tFctrlResult : s'.tFctrlResult = s.tFctrlResult
  sleep : ∀ a, (s'.txPlan a).sleep = (s.txPlan a).sleep

section
variable {s s' s'' : State} {a : ℕ} {ks : List RingId}

theorem Same.refl (s : State) : Same s s := ⟨fun _ => rfl, rfl, rfl, rfl, fun _ => rfl⟩

theorem Same.trans (h : Same s s') (h' : Same s' s'') : Same s s'' where
  avail := fun k => (h'.avail k).trans (h.avail k)
  macid := h'.macid.trans h.macid
  tRingList := h'.tRingList.trans h.tRingList
  tFctrlResult := h'.tFctrlResult.trans h.tFctrlResult
  sleep := fun b => (h'.sleep b).trans (h.sleep b)

theorem Same.busy_eq (h : Same s s') : busy s' = busy s := by
  funext k
  unfold busy
  rw [h.avail]

theorem Same.stsOf_eq (h : Same s s') : stsOf s' = stsOf s := by
  funext id k
  unfold stsOf
  rw [h.avail, h.macid]

/-- The statuses of two lists of rings, one after the other. -/
theorem gathered_append (h : Same s s')
    (hidle : s'.idle = s.idle.drop (ks.filter (busy s)).length) (ks' : List RingId) :
    gathered s (ks ++ ks') = gathered s ks ++ gathered s' ks' := by
  unfold gathered
  rw [List.filter_append, h.busy_eq, h.stsOf_eq, hidle]
  generalize ks.filter (busy s) = bs
  generalize s.idle = idle
  induction bs generalizing idle with
  | nil => simp
  | cons b bs ih =>
    cases idle with
    | nil => simp
    | cons id idle => simp [ih]

/-! ## One station -/

/-- The plan of the station has got the statuses of its rings `ks`. -/
structure Collected (a : ℕ) (s s' : State) (ks : List RingId) : Prop where
  same : Same s s'
  idle : s'.idle = s.idle.drop (ks.filter (busy s)).length
  plan : ((s'.txPlan a).sortedRing).Perm ((s.txPlan a).sortedRing ++ gathered s ks)
  other : ∀ b, b ≠ a → s'.txPlan b = s.txPlan b
  staList : s'.staList = s.staList

theorem sortRingByTid_perm (sts : RingStatus) (plan : TxPlan) (cat : Fin 10) :
    (sortRingByTid sts plan cat).sortedRing.Perm (plan.sortedRing ++ [sts]) := by
  have hcons : (sts :: plan.sortedRing).Perm (plan.sortedRing ++ [sts]) :=
    (List.perm_append_singleton sts _).symm
  unfold sortRingByTid
  split
  · exact .refl _
  split
  · cases hlast : plan.sortedRing.getLast? with
    | none =>
      rw [List.getLast?_eq_none_iff.mp hlast]
      exact .refl _
    | some last =>
      simp only
      split
      · -- in front of the ring with tid 1
        obtain ⟨ys, hys⟩ := List.getLast?_eq_some_iff.mp hlast
        rw [hys, List.dropLast_concat, List.append_assoc]
        exact (List.Perm.swap last sts []).append_left ys
      · exact .refl _
  · dsimp only
    split
    · exact hcons
    split
    · exact hcons
    · exact hcons

theorem sortRingByTid_sleep (sts : RingStatus) (plan : TxPlan) (cat : Fin 10) :
    (sortRingByTid sts plan cat).sleep = plan.sleep := by
  unfold sortRingByTid
  split
  · rfl
  split
  · split
    · rfl
    · split <;> rfl
  · dsimp only
    split
    · rfl
    · split <;> rfl

theorem avail_setNext (ring : TxRing) (next : ℕ) : avail { ring with phlNextIdx := next } =
    avail ring :=
  rfl

/-- One ring: nothing happens, or a status is taken from the pool. -/
theorem checkRing_cases (a : ℕ) (s : State) (i : Fin 10) :
    (checkRing a s i = s ∧ (busy s ⟨a, i⟩ = false ∨ s.idle = [])) ∨
      ∃ id idle, s.idle = id :: idle ∧ busy s ⟨a, i⟩ = true ∧
        checkRing a s i = { s with
          idle
          ring := Function.update s.ring ⟨a, i⟩ { s.ring ⟨a, i⟩ with
            phlNextIdx := nextPtr (toU16 (s.ring ⟨a, i⟩).phlIdx) }
          txPlan := Function.update s.txPlan a
            (sortRingByTid (stsOf s id ⟨a, i⟩) (s.txPlan a) i) } := by
  by_cases hbusy : avail (s.ring ⟨a, i⟩) = 0
  · refine .inl ⟨?_, .inl (decide_eq_false (not_not.mpr hbusy))⟩
    unfold checkRing checkRingStatus
    rw [if_pos hbusy]
  cases hidle : s.idle with
  | nil =>
    refine .inl ⟨?_, .inr rfl⟩
    unfold checkRing checkRingStatus phlAllocRingSts
    rw [if_neg hbusy, hidle]
  | cons id idle =>
    refine .inr ⟨id, idle, rfl, decide_eq_true hbusy, ?_⟩
    unfold checkRing checkRingStatus phlAllocRingSts
    rw [if_neg hbusy, hidle]
    rfl

theorem checkRing_collected (a : ℕ) (s : State) (i : Fin 10) :
    Collected a s (checkRing a s i) [⟨a, i⟩] := by
  rcases checkRing_cases a s i with ⟨heq, hnone⟩ | ⟨id, idle, hidle, hbusy, heq⟩
  · rw [heq]
    refine ⟨.refl s, ?_, ?_, fun _ _ => rfl, rfl⟩
    · rcases hnone with hbusy | hidle
      · simp [hbusy]
      · simp [hidle]
    · rcases hnone with hbusy | hidle
      · simp [gathered, hbusy]
      · simp [gathered, hidle]
  · rw [heq]
    refine ⟨⟨fun k => ?_, rfl, rfl, rfl, fun b => ?_⟩, ?_, ?_, fun b hb => ?_, rfl⟩
    · by_cases hk : k = ⟨a, i⟩
      · subst hk
        simp only [Function.update_self]
        exact avail_setNext _ _
      · simp only [Function.update_of_ne hk]
    · by_cases hb : b = a
      · subst hb
        simp only [Function.update_self]
        exact sortRingByTid_sleep _ _ _
      · simp only [Function.update_of_ne hb]
    · simp [hidle, hbusy]
    · simp only [Function.update_self]
      have hnew : gathered s [⟨a, i⟩] = [stsOf s id ⟨a, i⟩] := by simp [gathered, hidle, hbusy]
      rw [hnew]
      exact sortRingByTid_perm _ _ _
    · exact Function.update_of_ne hb _ _

theorem Collected.nil (a : ℕ) (s : State) : Collected a s s [] :=
  ⟨.refl s, rfl, by simp [gathered], fun _ _ => rfl, rfl⟩

theorem Collected.append {ks' : List RingId} (h : Collected a s s' ks)
    (h' : Collected a s' s'' ks') : Collected a s s'' (ks ++ ks') where
  same := h.same.trans h'.same
  idle := by
    rw [h'.idle, h.idle, h.same.busy_eq, List.drop_drop, List.filter_append, List.length_append]
  plan := by
    rw [gathered_append h.same h.idle, ← List.append_assoc]
    exact h'.plan.trans (h.plan.append_right _)
  other := fun b hb => (h'.other b hb).trans (h.other b hb)
  staList := h'.staList.trans h.staList

theorem checkRing_foldl (a : ℕ) (is : List (Fin 10)) (s : State) :
    Collected a s (is.foldl (checkRing a) s) (is.map (⟨a, ·⟩)) := by
  induction is generalizing s with
  | nil => exact .nil a s
  | cons i is ih => exact (checkRing_collected a s i).append (ih _)

/-! ## The order in a plan -/

/-- A list with one ring of this tid if the flag is set, and empty otherwise. -/
def HeadRing (flag : Bool) (tid : Fin 10) (l : List RingStatus) : Prop :=
  if flag then ∃ sts, l = [sts] ∧ sts.ring.tid = tid else l = []

/-- The plan of a station: its high queue, its management ring and the data rings, in this order. -/
structure Planned (a : ℕ) (plan : TxPlan) : Prop where
  station : ∀ sts ∈ plan.sortedRing, sts.ring.ringList = a
  order : ∃ hiq mgnt data, plan.sortedRing = hiq ++ (mgnt ++ data) ∧
    HeadRing plan.hasHiq ringCatHiq hiq ∧ HeadRing plan.hasMgnt ringCatMgnt mgnt ∧
    ∀ sts ∈ data, sts.ring.tid < 8

/-- The plan after the first eight categories. -/
structure DataOnly (a : ℕ) (plan : TxPlan) : Prop where
  hasMgnt : plan.hasMgnt = false
  hasHiq : plan.hasHiq = false
  data : ∀ sts ∈ plan.sortedRing, sts.ring.ringList = a ∧ sts.ring.tid < 8

theorem sortRingByTid_flags {sts : RingStatus} {plan : TxPlan} {cat : Fin 10} (hcat : cat < 8) :
    (sortRingByTid sts plan cat).hasMgnt = plan.hasMgnt ∧
      (sortRingByTid sts plan cat).hasHiq = plan.hasHiq := by
  have hmgnt : cat ≠ ringCatMgnt := Fin.ne_of_lt hcat
  have hhiq : cat ≠ ringCatHiq := Fin.ne_of_lt (Fin.lt_trans hcat (by decide))
  unfold sortRingByTid
  split
  · exact ⟨rfl, rfl⟩
  split
  · split
    · exact ⟨rfl, rfl⟩
    · split <;> exact ⟨rfl, rfl⟩
  · exact ⟨rfl, rfl⟩

theorem DataOnly.checkRing (h : DataOnly a (s.txPlan a)) {i : Fin 10} (hi : i < 8) :
    DataOnly a ((checkRing a s i).txPlan a) := by
  rcases checkRing_cases a s i with ⟨heq, -⟩ | ⟨id, idle, -, -, heq⟩
  · rw [heq]
    exact h
  · rw [heq]
    simp only [Function.update_self]
    obtain ⟨hmgnt, hhiq⟩ := sortRingByTid_flags hi
    refine ⟨hmgnt.trans h.hasMgnt, hhiq.trans h.hasHiq, fun sts hsts => ?_⟩
    rcases List.mem_append.mp ((sortRingByTid_perm _ _ _).mem_iff.mp hsts) with hsts | hsts
    · exact h.data sts hsts
    · rw [List.mem_singleton.mp hsts]
      exact ⟨rfl, hi⟩

theorem DataOnly.foldl (is : List (Fin 10)) (his : ∀ i ∈ is, i < 8)
    (h : DataOnly a (s.txPlan a)) :
    DataOnly a ((is.foldl (FlowCtrl.checkRing a) s).txPlan a) := by
  induction is generalizing s with
  | nil => exact h
  | cons i is ih =>
    rw [List.forall_mem_cons] at his
    exact ih his.2 (h.checkRing his.1)

/-- The management ring goes to the head, and the high queue in front of it. -/
theorem DataOnly.planned (h : DataOnly a (s.txPlan a)) :
    Planned a
      ((FlowCtrl.checkRing a (FlowCtrl.checkRing a s ringCatMgnt) ringCatHiq).txPlan a) := by
  have hmgnt : ∃ mgnt, ((FlowCtrl.checkRing a s ringCatMgnt).txPlan a).sortedRing =
        mgnt ++ (s.txPlan a).sortedRing ∧
      HeadRing ((FlowCtrl.checkRing a s ringCatMgnt).txPlan a).hasMgnt ringCatMgnt mgnt ∧
      (∀ sts ∈ mgnt, sts.ring.ringList = a) ∧
      ((FlowCtrl.checkRing a s ringCatMgnt).txPlan a).hasHiq = false := by
    rcases checkRing_cases a s ringCatMgnt with ⟨heq, -⟩ | ⟨id, idle, -, -, heq⟩
    · rw [heq, h.hasMgnt]
      exact ⟨[], rfl, rfl, by simp, h.hasHiq⟩
    · rw [heq]
      simp only [Function.update_self]
      exact ⟨[stsOf s id ⟨a, ringCatMgnt⟩], rfl, ⟨_, rfl, rfl⟩, by simp [stsOf], h.hasHiq⟩
  obtain ⟨mgnt, hsorted, hhead, hstation, hnoHiq⟩ := hmgnt
  generalize FlowCtrl.checkRing a s ringCatMgnt = s₁ at *
  have hall : ∀ sts ∈ (s₁.txPlan a).sortedRing, sts.ring.ringList = a := by
    rw [hsorted, List.forall_mem_append]
    exact ⟨hstation, fun sts hsts => (h.data sts hsts).1⟩
  rcases checkRing_cases a s₁ ringCatHiq with ⟨heq, -⟩ | ⟨id, idle, -, -, heq⟩
  · rw [heq]
    refine ⟨hall, [], mgnt, (s.txPlan a).sortedRing, hsorted, ?_, hhead,
      fun sts hsts => (h.data sts hsts).2⟩
    rw [hnoHiq]
    rfl
  · rw [heq]
    simp only [Function.update_self]
    refine ⟨?_, [stsOf s₁ id ⟨a, ringCatHiq⟩], mgnt, (s.txPlan a).sortedRing, ?_, ⟨_, rfl, rfl⟩,
      hhead, fun sts hsts => (h.data sts hsts).2⟩
    · exact List.forall_mem_cons.mpr ⟨rfl, hall⟩
    · exact congrArg (_ :: ·) hsorted

/-- The plan of a station in front of its turn. -/
theorem checkRing_planned (hmgnt : (s.txPlan a).hasMgnt = false)
    (hhiq : (s.txPlan a).hasHiq = false) (hsorted : (s.txPlan a).sortedRing = []) :
    Planned a (((List.finRange 10).foldl (checkRing a) s).txPlan a) := by
  have hstart : DataOnly a (s.txPlan a) := ⟨hmgnt, hhiq, by simp [hsorted]⟩
  have hsplit : List.finRange 10 = [0, 1, 2, 3, 4, 5, 6, 7] ++ [ringCatMgnt, ringCatHiq] := by
    decide
  have hdata : DataOnly a (([0, 1, 2, 3, 4, 5, 6, 7].foldl (checkRing a) s).txPlan a) :=
    hstart.foldl _ (by decide)
  rw [hsplit, List.foldl_append, List.foldl_cons, List.foldl_cons, List.foldl_nil]
  exact hdata.planned

theorem HeadRing.of_nil {flag : Bool} {tid : Fin 10} (h : HeadRing flag tid []) : flag = false := by
  cases flag with
  | false => rfl
  | true =>
    obtain ⟨sts, hsts, -⟩ := h
    simp at hsts

/-- An empty plan has no flag set. -/
theorem Planned.of_nil {plan : TxPlan} (h : Planned a plan) (hnil : plan.sortedRing = []) :
    plan = { sleep := plan.sleep } := by
  obtain ⟨hiq, mgnt, data, hsorted, hhiq, hmgnt, -⟩ := h.order
  rw [hnil] at hsorted
  obtain ⟨rfl, hrest⟩ := List.append_eq_nil_iff.mp hsorted.symm
  obtain ⟨rfl, -⟩ := List.append_eq_nil_iff.mp hrest
  cases plan
  simp only [TxPlan.mk.injEq]
  exact ⟨trivial, hmgnt.of_nil, hhiq.of_nil, hnil⟩

/-! ## All stations -/

/-- The ring statuses in the plans of the stations that have been found. -/
def plans (s : State) : List RingStatus := s.staList.flatMap fun a => (s.txPlan a).sortedRing

/-- The plans while the stations are looked at. -/
structure Collecting (s : State) : Prop where
  nodup : s.staList.Nodup
  planned : ∀ a ∈ s.staList, Planned a (s.txPlan a)
  rest : ∀ a ∉ s.staList, s.txPlan a = { sleep := (s.txPlan a).sleep }

theorem checkTringList_cases (s : State) (a : ℕ) :
    let s' := (List.finRange 10).foldl (checkRing a) s
    ((s'.txPlan a).sortedRing = [] ∧ checkTringList s a = s') ∨
      ((s'.txPlan a).sortedRing ≠ [] ∧
        checkTringList s a = { s' with staList := s'.staList ++ [a] }) := by
  unfold checkTringList
  dsimp only
  split
  · next h => exact .inl ⟨h, rfl⟩
  · next h => exact .inr ⟨h, rfl⟩

/-- What one or more stations add. -/
structure Scanned (s s' : State) (as : List ℕ) : Prop where
  collecting : Collecting s'
  same : Same s s'
  idle : s'.idle = s.idle.drop ((as.flatMap ringsOf).filter (busy s)).length
  plans : (plans s').Perm (plans s ++ gathered s (as.flatMap ringsOf))
  staList : ∀ b ∈ s'.staList, b ∈ s.staList ∨ b ∈ as

theorem Collecting.checkTringList (h : Collecting s) (ha : a ∉ s.staList) :
    Scanned s (checkTringList s a) [a] := by
  have hfold := checkRing_foldl a (List.finRange 10) s
  have hplan := h.rest a ha
  have hsorted : (s.txPlan a).sortedRing = [] := by rw [hplan]
  have hplanned : Planned a (((List.finRange 10).foldl (checkRing a) s).txPlan a) :=
    checkRing_planned (by rw [hplan]) (by rw [hplan]) hsorted
  have hcases := checkTringList_cases s a
  have hgot := hfold.plan
  rw [hsorted, List.nil_append] at hgot
  dsimp only at hcases
  generalize (List.finRange 10).foldl (checkRing a) s = s₁ at *
  -- the other plans are as before
  have hold : s.staList.flatMap (fun b => (s₁.txPlan b).sortedRing) = FlowCtrl.plans s := by
    refine List.flatMap_congr fun b hb => ?_
    rw [hfold.other b (ne_of_mem_of_not_mem hb ha)]
  have hrest (b : ℕ) (hb : b ∉ s.staList) (hne : b ≠ a) :
      s₁.txPlan b = { sleep := (s₁.txPlan b).sleep } := by
    rw [hfold.other b hne]
    exact h.rest b hb
  have hkept (b : ℕ) (hb : b ∈ s.staList) : Planned b (s₁.txPlan b) := by
    rw [hfold.other b (ne_of_mem_of_not_mem hb ha)]
    exact h.planned b hb
  have hone : [a].flatMap ringsOf = ringsOf a := by simp
  rcases hcases with ⟨hnil, heq⟩ | ⟨hne, heq⟩
  · -- no ring of the station has got a status
    rw [heq]
    rw [hnil] at hgot
    refine ⟨⟨?_, ?_, fun b hb => ?_⟩, hfold.same, ?_, ?_, fun b hb => ?_⟩
    · rw [hfold.staList]
      exact h.nodup
    · rw [hfold.staList]
      exact hkept
    · rw [hfold.staList] at hb
      by_cases hba : b = a
      · rw [hba]
        exact hplanned.of_nil hnil
      · exact hrest b hb hba
    · rw [hone]
      exact hfold.idle
    · have hnone : gathered s (ringsOf a) = [] := hgot.symm.eq_nil
      rw [hone, hnone, List.append_nil, FlowCtrl.plans, hfold.staList, hold]
    · exact .inl (hfold.staList ▸ hb)
  · rw [heq]
    refine ⟨⟨?_, fun b hb => ?_, fun b hb => ?_⟩, ?_, ?_, ?_, fun b hb => ?_⟩
    · rw [hfold.staList]
      exact List.nodup_append.mpr ⟨h.nodup, List.nodup_singleton a,
        fun x hx y hy hxy => ha (List.mem_singleton.mp hy ▸ hxy ▸ hx)⟩
    · rw [hfold.staList] at hb
      rcases List.mem_append.mp hb with hb | hb
      · exact hkept b hb
      · rw [List.mem_singleton.mp hb]
        exact hplanned
    · rw [hfold.staList, List.mem_append, not_or, List.mem_singleton] at hb
      exact hrest b hb.1 hb.2
    · exact ⟨hfold.same.avail, hfold.same.macid, hfold.same.tRingList, hfold.same.tFctrlResult,
        hfold.same.sleep⟩
    · rw [hone]
      exact hfold.idle
    · rw [hone, FlowCtrl.plans, hfold.staList, List.flatMap_append, hold, List.flatMap_singleton]
      exact hgot.append_left _
    · rw [hfold.staList] at hb
      exact (List.mem_append.mp hb)

/-- All stations, in their order. -/
theorem Collecting.foldl (as : List ℕ) (h : Collecting s) (has : as.Nodup)
    (hnew : ∀ a ∈ as, a ∉ s.staList) : Scanned s (as.foldl FlowCtrl.checkTringList s) as := by
  induction as generalizing s with
  | nil => exact ⟨h, .refl s, rfl, by simp [gathered], fun b hb => .inl hb⟩
  | cons a as ih =>
    rw [List.forall_mem_cons] at hnew
    rw [List.nodup_cons] at has
    have hone := h.checkTringList hnew.1
    have hflat : [a].flatMap ringsOf = ringsOf a := by simp
    have hrest := ih hone.collecting has.2 fun b hb hmem => by
      rcases hone.staList b hmem with hold | hold
      · exact hnew.2 b hb hold
      · exact has.1 (List.mem_singleton.mp hold ▸ hb)
    have hidle := hone.idle
    rw [hflat] at hidle
    rw [List.foldl_cons]
    refine ⟨hrest.collecting, hone.same.trans hrest.same, ?_, ?_, fun b hb => ?_⟩
    · rw [hrest.idle, hidle, hone.same.busy_eq, List.drop_drop, List.flatMap_cons,
        List.filter_append, List.length_append]
    · rw [List.flatMap_cons, gathered_append hone.same hidle, ← List.append_assoc]
      have hplans := hone.plans
      rw [hflat] at hplans
      exact hrest.plans.trans (hplans.append_right _)
    · rw [List.mem_cons]
      rcases hrest.staList b hb with hold | hold
      · exact (hone.staList b hold).imp_right fun hmem => .inl (List.mem_singleton.mp hmem)
      · exact .inr (.inr hold)

end

end Rtl88x2cu.Trx.FlowCtrl
