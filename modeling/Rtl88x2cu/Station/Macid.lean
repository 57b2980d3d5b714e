import Rtl88x2cu.Station.Pool

/-!
# Macids and broadcast stations

`stations_share_no_macid` is the result for the macids. The tables always agree. Two stations of
the queues have different macids, and each has its ring, as long as no TX ring registration fails:
`_phl_alloc_stainfo_sw` then reports success for a station without a macid
(`unregistered_stations_share_macid`).

`broadcast_lookup` is the result for the cache `wrole_bmc` of the broadcast stations of the roles.
It is not cleared when a macid is released, so the lookup of a broadcast station is right only as
long as no other station takes a macid that is still in the cache
(`broadcast_lookup_finds_unicast`).
-/

namespace Rtl88x2cu.Station

open Trx (RtwPhlStatus)

/-! ## A new station, and a station that is given back -/

/-- From `s` to `t` the station `x` is taken from the pool for the address `addr` in the role `r`,
and is offered the macid `m`. It keeps it if its TX ring can be registered. -/
structure NewSta (s : State) (addr : MacAddr) (r : ℕ) (ringOk : Bool) (x m : ℕ) (t : State) :
    Prop where
  free : s.freeStaQueue.queue = x :: t.freeStaQueue.queue
  cnt : t.freeStaQueue.cnt = s.freeStaQueue.cnt - 1
  first : firstUnused s.macidCtl = some m
  assoc : t.assocStaQueue =
    Function.update s.assocStaQueue r (phlStainfoEnqueue (s.assocStaQueue r) x)
  role : t.wifiRole = s.wifiRole
  self : t.staInfo x = { s.staInfo x with
    macAddr := addr, wrole := r, macid := if ringOk then m else s.macidCtl.maxNum }
  other {y : ℕ} : y ≠ x → t.staInfo y = s.staInfo y
  macidCtl : t.macidCtl =
    let mc := s.macidCtl.assign x { s.staInfo x with macAddr := addr, wrole := r } m
    if ringOk then mc else
      mc.clear { s.staInfo x with macAddr := addr, wrole := r, macid := m }
  ring : t.tRingList = if ringOk then s.tRingList ++ [m] else s.tRingList

/-- What it says when a new station is returned. -/
theorem newStainfo_some {s t : State} {addr : MacAddr} {r x : ℕ} {ringOk : Bool}
    (h : phlNewStainfo s addr r ringOk = (some x, t)) : ∃ m, NewSta s addr r ringOk x m t := by
  obtain ⟨-, hcase⟩ | ⟨y, q, hq, st, u, halloc, hcase⟩ := newStainfo_cases s addr r ringOk
  · rw [hcase] at h
    cases h
  obtain ⟨-, hcase⟩ | ⟨rfl, hcase⟩ := hcase
  · rw [hcase] at h
    cases h
  rw [hcase] at h
  obtain ⟨hx, rfl⟩ := Prod.mk.inj h
  obtain rfl := Option.some.inj hx
  obtain ⟨hqueue, hcnt⟩ := dequeue_spec hq
  obtain ⟨-, hst⟩ | ⟨m, hfirst, ⟨rfl, hst⟩ | ⟨rfl, hst⟩⟩ := allocStainfoSw₀_cases
    ({ s with freeStaQueue := q }.setSta y fun i => { i with macAddr := addr, wrole := r }) y ringOk
  all_goals rw [hst] at halloc
  · cases (Prod.mk.inj halloc).1
  all_goals obtain rfl := (Prod.mk.inj halloc).2
  · refine ⟨m, hqueue, hcnt, hfirst, rfl, rfl, ?_, fun hy => ?_, ?_, rfl⟩
    · simp [setSta_self]
    · simp [setSta_of_ne _ _ hy]
    · simp [setSta_self]
  · refine ⟨m, hqueue, hcnt, hfirst, rfl, rfl, ?_, fun hy => ?_, ?_, rfl⟩
    · simp [setSta_self]
    · simp [setSta_of_ne _ _ hy]
    · simp [setSta_self]

/-- When no station is returned, nothing has changed but the place of an object in the free queue
and the contents of the object. -/
theorem newStainfo_none {s t : State} {addr : MacAddr} {r : ℕ} {ringOk : Bool}
    (h : phlNewStainfo s addr r ringOk = (none, t)) :
    t.macidCtl = s.macidCtl ∧ t.assocStaQueue = s.assocStaQueue ∧ t.wifiRole = s.wifiRole ∧
      t.tRingList = s.tRingList ∧ t.freeStaQueue.queue.Perm s.freeStaQueue.queue ∧
      t.freeStaQueue.cnt = s.freeStaQueue.cnt ∧
      ∀ y, y ∉ s.freeStaQueue.queue → t.staInfo y = s.staInfo y := by
  obtain ⟨-, hcase⟩ | ⟨x, q, hq, st, u, halloc, hcase⟩ := newStainfo_cases s addr r ringOk
  · rw [hcase] at h
    obtain rfl := (Prod.mk.inj h).2
    exact ⟨rfl, rfl, rfl, rfl, List.Perm.refl _, rfl, fun _ _ => rfl⟩
  obtain ⟨rfl, hcase⟩ | ⟨-, hcase⟩ := hcase
  · rw [hcase] at h
    obtain rfl := (Prod.mk.inj h).2
    obtain ⟨hqueue, hcnt⟩ := dequeue_spec hq
    obtain ⟨-, hst⟩ | ⟨m, -, ⟨-, hst⟩ | ⟨-, hst⟩⟩ := allocStainfoSw₀_cases
      ({ s with freeStaQueue := q }.setSta x fun i => { i with macAddr := addr, wrole := r }) x
      ringOk
    all_goals rw [hst] at halloc
    · obtain rfl := (Prod.mk.inj halloc).2
      refine ⟨rfl, rfl, rfl, rfl, ?_, ?_, fun y hy => ?_⟩
      · rw [hqueue]
        exact List.perm_append_singleton x q.queue
      · show q.cnt + 1 = s.freeStaQueue.cnt
        omega
      · have hne : y ≠ x := by
          rintro rfl
          rw [hqueue] at hy
          exact hy List.mem_cons_self
        simp only [setSta_of_ne _ _ hne]
    · cases (Prod.mk.inj halloc).1
    · cases (Prod.mk.inj halloc).1
  · rw [hcase] at h
    cases h

/-- From `s` to `t` the station `x` is given back to the pool. -/
structure BackSta (s : State) (x : ℕ) (t : State) : Prop where
  free : t.freeStaQueue = phlStainfoEnqueue s.freeStaQueue x
  assoc : t.assocStaQueue = Function.update s.assocStaQueue (s.staInfo x).wrole
    (phlStainfoQueueDel (s.assocStaQueue (s.staInfo x).wrole) x)
  role : t.wifiRole = s.wifiRole
  self : t.staInfo x = { s.staInfo x with macid := s.macidCtl.maxNum }
  other {y : ℕ} : y ≠ x → t.staInfo y = s.staInfo y
  macid : ((s.staInfo x).macid < s.macidCtl.maxNum ∧
      t.macidCtl = s.macidCtl.clear (s.staInfo x) ∧
      t.tRingList = s.tRingList.erase (s.staInfo x).macid) ∨
    (s.macidCtl.maxNum ≤ (s.staInfo x).macid ∧ t.macidCtl = s.macidCtl ∧
      t.tRingList = s.tRingList)

theorem Inv.recycle_spec {staNum : ℕ} {s : State} {x : ℕ} (h : Inv staNum s) (hx : Live s x) :
    BackSta s x (phlRecycleStainfo s x) := by
  have htables : Tables (InAssoc s) (s.setAssoc (s.staInfo x).wrole
      (phlStainfoQueueDel (s.assocStaQueue (s.staInfo x).wrole) x)) :=
    h.tables.congr rfl rfl rfl rfl rfl (fun _ _ => rfl) fun _ _ => rfl
  obtain ⟨hlt, hcase⟩ | ⟨hge, hcase⟩ := freeStainfoSw₀_cases htables ⟨_, hx⟩
  · refine ⟨?_, ?_, ?_, ?_, fun hy => ?_, Or.inl ⟨hlt, ?_, ?_⟩⟩
    all_goals simp only [phlRecycleStainfo, hcase]
    · rfl
    · rfl
    · rfl
    · exact setSta_self ..
    · exact setSta_of_ne _ _ hy
    · rfl
    · rfl
  · refine ⟨?_, ?_, ?_, ?_, fun hy => ?_, Or.inr ⟨hge, ?_, ?_⟩⟩
    all_goals simp only [phlRecycleStainfo, hcase]
    · rfl
    · rfl
    · rfl
    · exact setSta_self ..
    · exact setSta_of_ne _ _ hy
    · rfl
    · rfl

/-- The stations of the queues after a new one has been taken. -/
theorem NewSta.inAssoc {s t : State} {addr : MacAddr} {r x m : ℕ} {ringOk : Bool}
    (h : NewSta s addr r ringOk x m t) (y : ℕ) : InAssoc t y ↔ InAssoc s y ∨ y = x := by
  rw [← inAssoc_enqueue (s := s) (r := r)]
  exact inAssoc_congr h.assoc

/-- The object of a new station was in no queue of a role. -/
theorem NewSta.not_inAssoc {staNum : ℕ} {s t : State} {addr : MacAddr} {r x m : ℕ} {ringOk : Bool}
    (h : NewSta s addr r ringOk x m t) (hinv : Inv staNum s) : ¬ InAssoc s x := by
  refine hinv.queues.free_not_assoc ?_
  rw [h.free]
  exact List.mem_cons_self

/-- The object and the macid that `phl_alloc_stainfo_sw` takes for a new station, if it comes to
that. -/
def newStation (s : State) (addr : MacAddr) (r : ℕ) : Option (ℕ × ℕ) :=
  if selfStainfo s addr r = none ∧ rtwPhlGetStainfoByAddr s r addr = none then
    s.freeStaQueue.queue.head?.bind fun x => (firstUnused s.macidCtl).map fun m => (x, m)
  else none

/-- A new station is the one foreseen. -/
theorem NewSta.newStation {s t : State} {addr : MacAddr} {r x m : ℕ} {ringOk : Bool}
    (h : NewSta s addr r ringOk x m t) (hself : selfStainfo s addr r = none)
    (hfind : rtwPhlGetStainfoByAddr s r addr = none) :
    Station.newStation s addr r = some (x, m) := by
  unfold Station.newStation
  rw [if_pos ⟨hself, hfind⟩, h.free, h.first]
  rfl

/-! ## Stations and macids -/

/-- A TX ring is registered for every new station of the event. -/
def RingOk (s : State) : Event → Prop
  | .allocSw addr r ringOk => newStation s addr r ≠ none → ringOk = true
  | .alloc addr r ringOk _ => newStation s addr r ≠ none → ringOk = true
  | _ => True

instance (s : State) (e : Event) : Decidable (RingOk s e) :=
  match e with
  | .allocSw addr r _ => inferInstanceAs (Decidable (newStation s addr r ≠ none → _))
  | .alloc addr r _ _ => inferInstanceAs (Decidable (newStation s addr r ≠ none → _))
  | .roleAlloc _ _ => isTrue trivial
  | .allocHw _ _ => isTrue trivial
  | .freeSw _ => isTrue trivial
  | .free _ => isTrue trivial
  | .roleStop _ => isTrue trivial

/-- Every station of the queues has a valid macid. -/
def Registered (s : State) : Prop := ∀ x, InAssoc s x → (s.staInfo x).macid < s.macidCtl.maxNum

namespace Registered

variable {staNum : ℕ} {s t : State} {x r : ℕ}

theorem setSta (h : Registered s) (x : ℕ) (f : StaInfo → StaInfo)
    (hmacid : ∀ i, (f i).macid = i.macid) : Registered (s.setSta x f) := by
  intro y hy
  rw [setSta_field s x y f StaInfo.macid hmacid]
  exact h y hy

theorem recycle (h : Registered s) (hinv : Inv staNum s) (hx : Live s x) :
    Registered (phlRecycleStainfo s x) := by
  intro y hy
  rw [hinv.inAssoc_recycle hx] at hy
  have hback := hinv.recycle_spec hx
  have hmax : (phlRecycleStainfo s x).macidCtl.maxNum = s.macidCtl.maxNum := by
    obtain ⟨-, hmc, -⟩ | ⟨-, hmc, -⟩ := hback.macid
    · rw [hmc]
      rfl
    · rw [hmc]
  rw [hback.other hy.2, hmax]
  exact h y hy.1

theorem newStainfo (h : Registered s) (hinv : Inv staNum s) {addr : MacAddr} {ringOk : Bool}
    (hself : selfStainfo s addr r = none) (hfind : rtwPhlGetStainfoByAddr s r addr = none)
    (hok : newStation s addr r ≠ none → ringOk = true) :
    Registered (phlNewStainfo s addr r ringOk).2 := by
  rcases heq : phlNewStainfo s addr r ringOk with ⟨_ | x, t⟩
  · obtain ⟨hmc, hassoc, -, -, -, -, hsta⟩ := newStainfo_none heq
    intro y hy
    rw [inAssoc_congr hassoc] at hy
    have hnot : y ∉ s.freeStaQueue.queue := fun hfree => hinv.queues.free_not_assoc hfree hy
    rw [hsta y hnot, hmc]
    exact h y hy
  · obtain ⟨m, hnew⟩ := newStainfo_some heq
    obtain rfl : ringOk = true := by
      refine hok ?_
      rw [hnew.newStation hself hfind]
      exact Option.some_ne_none _
    intro y hy
    have hmax : t.macidCtl.maxNum = s.macidCtl.maxNum := by
      rw [hnew.macidCtl]
      rfl
    rw [hmax]
    by_cases hyx : y = x
    · rw [hyx, hnew.self]
      exact (firstUnused_spec hnew.first).1
    · rw [hnew.other hyx]
      exact h y (((hnew.inAssoc y).mp hy).resolve_right hyx)

theorem allocSw (h : Registered s) (hinv : Inv staNum s) {addr : MacAddr} {ringOk : Bool}
    (hok : newStation s addr r ≠ none → ringOk = true) :
    Registered (phlAllocStainfoSw s addr r ringOk).2 := by
  obtain ⟨x, -, hcase⟩ | ⟨-, x, -, hcase⟩ | ⟨hself, hfind, hcase⟩ :=
    allocStainfoSw_cases s addr r ringOk
  · rw [hcase]
    exact h.setSta x (fun i => { i with macAddr := addr }) fun _ => rfl
  · rw [hcase]
    exact h
  · rw [hcase]
    exact h.newStainfo hinv hself hfind hok

theorem step {e : Event} {s' : State} (h : Registered s) (hinv : Inv staNum s) (hok : RingOk s e)
    (hs : Station.step s e = some s') : Registered s' := by
  refine hinv.step_rule h (fun addr r ringOk he => ?_) (fun _ _ ht => ht)
    (fun _ x ht => ht.setSta x _ fun _ => rfl) (fun _ x _ ht _ _ => ht.setSta x _ fun _ => rfl)
    (fun _ _ hinv ht hx => ht.recycle hinv hx) hs
  obtain rfl | ⟨hwOk, rfl⟩ := he
  · exact h.allocSw hinv hok
  · exact h.allocSw hinv hok

end Registered

theorem run_registered {maxNum staNum : ℕ} {wifiRole : ℕ → WifiRole} {es : List Event} {s : State}
    (h : run step (init maxNum staNum wifiRole) es = some s)
    (hok : Guarded step RingOk (init maxNum staNum wifiRole) es) : Registered s := by
  have hinit : Inv staNum (init maxNum staNum wifiRole) ∧
      Registered (init maxNum staNum wifiRole) := by
    refine ⟨inv_init maxNum staNum wifiRole, ?_⟩
    rintro x ⟨r, hx⟩
    cases hx
  have hstep (s : State) (e : Event) (s' : State) (hs : Inv staNum s ∧ Registered s)
      (hoke : RingOk s e) (he : step s e = some s') : Inv staNum s' ∧ Registered s' :=
    ⟨hs.1.step he, hs.2.step hs.1 hoke he⟩
  exact (run_preserves _ hstep hinit hok h).2

/-- In every reachable state a macid is used iff it is recorded, a used macid belongs to exactly
one role and has exactly one TX ring, and a recorded station has the macid it is recorded under. If
moreover a TX ring could be registered for every new station, then no two live stations share a
macid, and each has exactly one TX ring. -/
theorem stations_share_no_macid (maxNum staNum : ℕ) (wifiRole : ℕ → WifiRole) (es : List Event)
    (s : State) (hrun : run step (init maxNum staNum wifiRole) es = some s) :
    ((∀ m, phlMacidIsUsed s.macidCtl.usedMap m = true ↔ s.macidCtl.sta m ≠ none) ∧
      (∀ m, phlMacidIsUsed s.macidCtl.usedMap m = true →
        ∃! r, phlMacidIsUsed (s.macidCtl.wifiRoleUsedmap r) m = true) ∧
      (∀ m x, s.macidCtl.sta m = some x → (s.staInfo x).macid = m) ∧
      (∀ m, phlMacidIsUsed s.macidCtl.usedMap m = true → s.tRingList.count m = 1)) ∧
    (Guarded step RingOk (init maxNum staNum wifiRole) es →
      (∀ x y, Live s x → Live s y → (s.staInfo x).macid = (s.staInfo y).macid → x = y) ∧
      ∀ x, Live s x → s.tRingList.count (s.staInfo x).macid = 1) := by
  have hinv := run_inv hrun
  have hused (m : ℕ) : phlMacidIsUsed s.macidCtl.usedMap m = true ↔ s.macidCtl.sta m ≠ none := by
    rw [hinv.tables.used, Option.isSome_iff_ne_none]
  have hring (m : ℕ) (hm : s.macidCtl.sta m ≠ none) : s.tRingList.count m = 1 := by
    rw [hinv.tables.ring, if_pos (Option.isSome_iff_ne_none.mpr hm)]
  refine ⟨⟨hused, fun m hm => ?_, fun m x hx => (hinv.tables.sta hx).2.1,
    fun m hm => hring m ((hused m).mp hm)⟩, fun hok => ?_⟩
  · -- the role of a used macid is the one of the recorded station
    obtain ⟨x, hx⟩ := Option.ne_none_iff_exists'.mp ((hused m).mp hm)
    refine ⟨(s.staInfo x).wrole, (hinv.tables.roleMap _ m).mpr ⟨x, hx, rfl⟩, fun r hr => ?_⟩
    obtain ⟨y, hy, rfl⟩ := (hinv.tables.roleMap r m).mp hr
    rw [hx] at hy
    rw [Option.some.inj hy]
  · have hreg := run_registered hrun hok
    have hrec (x : ℕ) (hx : Live s x) : s.macidCtl.sta (s.staInfo x).macid = some x :=
      hinv.tables.holder (hinv.live_iff.mp hx) (hreg x (hinv.live_iff.mp hx))
    refine ⟨fun x y hx hy heq => ?_, fun x hx => hring _ ?_⟩
    · have hxy := hrec x hx
      rw [heq, hrec y hy] at hxy
      exact (Option.some.inj hxy).symm
    · rw [hrec x hx]
      exact Option.some_ne_none x

/-- Two access point clients and the broadcast station, one client released again. -/
theorem stations_share_no_macid_ap : ∃ s, run step (init 128 128 fun _ => ⟨.ap, 1⟩)
    [.alloc bcAddr 0 true true, .alloc 2 0 true true, .alloc 3 0 true true, .free 1] = some s ∧
    Live s 0 ∧ Live s 2 ∧ s.tRingList.count (s.staInfo 2).macid = 1 ∧
      ((s.staInfo 0).macid = (s.staInfo 2).macid → 0 = 2) := by
  have hend : (run step (init 128 128 fun _ => ⟨.ap, 1⟩) [.alloc bcAddr 0 true true,
      .alloc 2 0 true true, .alloc 3 0 true true, .free 1]).map
      (fun s => (decide (Live s 0), decide (Live s 2))) = some (true, true) := by decide +kernel
  obtain ⟨s, hs, hview⟩ := Option.map_eq_some_iff.mp hend
  obtain ⟨h0, h2⟩ := Prod.mk.inj hview
  have hlive0 := of_decide_eq_true h0
  have hlive2 := of_decide_eq_true h2
  have hok : Guarded step RingOk (init 128 128 fun _ => ⟨.ap, 1⟩) [.alloc bcAddr 0 true true,
      .alloc 2 0 true true, .alloc 3 0 true true, .free 1] := by decide +kernel
  obtain ⟨hdiff, hring⟩ := (stations_share_no_macid 128 128 _ _ s hs).2 hok
  exact ⟨s, hs, hlive0, hlive2, hring 2 hlive2, hdiff 0 2 hlive0 hlive2⟩

/-- When the TX rings of two stations cannot be registered, both allocations succeed: the stations
are live, share the invalid macid, and have no ring. -/
theorem unregistered_stations_share_macid : ∃ s, run step (init 128 128 fun _ => ⟨.ap, 1⟩)
    [.alloc 2 0 false true, .alloc 3 0 false true] = some s ∧ Live s 0 ∧ Live s 1 ∧
      (s.staInfo 0).macid = (s.staInfo 1).macid ∧ s.tRingList = [] := by
  have hend : (run step (init 128 128 fun _ => ⟨.ap, 1⟩)
      [.alloc 2 0 false true, .alloc 3 0 false true]).map (fun s => (decide (Live s 0),
        decide (Live s 1), decide ((s.staInfo 0).macid = (s.staInfo 1).macid), s.tRingList)) =
      some (true, true, true, []) := by decide +kernel
  obtain ⟨s, hs, hview⟩ := Option.map_eq_some_iff.mp hend
  obtain ⟨h0, hview⟩ := Prod.mk.inj hview
  obtain ⟨h1, hview⟩ := Prod.mk.inj hview
  obtain ⟨heq, hring⟩ := Prod.mk.inj hview
  exact ⟨s, hs, of_decide_eq_true h0, of_decide_eq_true h1, of_decide_eq_true heq, hring⟩

/-! ## Broadcast stations -/

/-- A station that the cache of a role leads to is the broadcast station of the role. -/
def BmcOk (s : State) : Prop := ∀ r x, s.macidCtl.sta (s.macidCtl.wroleBmc r) = some x →
  (s.staInfo x).wrole = r ∧ (s.staInfo x).macAddr = bcAddr

/-- The lookup of the broadcast address goes through the cache. -/
theorem Inv.broadcast_lookup_eq {staNum : ℕ} {s : State} (h : Inv staNum s) (r : ℕ) :
    rtwPhlGetStainfoByAddr s r bcAddr = s.macidCtl.sta (s.macidCtl.wroleBmc r) := by
  have hbc : isBroadcastMacAddr bcAddr = true := by decide
  unfold rtwPhlGetStainfoByAddr
  rw [if_pos hbc]
  dsimp only
  split
  next hge => exact (h.tables.sta_eq_none hge).symm
  · rfl

/-- No entry of the cache is spoilt: the station whose address an allocation overwrites is not the
broadcast station of the role, and a new station does not take a macid that is in the cache, other
than as the broadcast station of the role whose entry it is. -/
def CacheOk (s : State) : Event → Prop
  | .allocSw addr r ringOk | .alloc addr r ringOk _ =>
    (∀ x ∈ selfStainfo s addr r, rtwPhlGetStainfoByAddr s r bcAddr ≠ some x) ∧
    (ringOk = true → ∀ p ∈ newStation s addr r, ∀ r', s.macidCtl.wroleBmc r' = p.2 →
      r' = r ∧ addr = bcAddr)
  | _ => True

namespace BmcOk

variable {staNum : ℕ} {s t : State} {x r : ℕ}

/-- A write to a station that keeps its role, and its address if it is in the cache. -/
theorem setSta (h : BmcOk s) (x : ℕ) (f : StaInfo → StaInfo)
    (hwrole : ∀ i, (f i).wrole = i.wrole)
    (haddr : (∀ i, (f i).macAddr = i.macAddr) ∨
      ∀ r, s.macidCtl.sta (s.macidCtl.wroleBmc r) ≠ some x) : BmcOk (s.setSta x f) := by
  intro r y hy
  obtain ⟨hr, hbc⟩ := h r y hy
  rw [setSta_field s x y f StaInfo.wrole hwrole]
  refine ⟨hr, ?_⟩
  obtain haddr | hnot := haddr
  · rw [setSta_field s x y f StaInfo.macAddr haddr]
    exact hbc
  · have hne : y ≠ x := by
      rintro rfl
      exact hnot r hy
    rw [setSta_of_ne _ _ hne]
    exact hbc

theorem recycle (h : BmcOk s) (hinv : Inv staNum s) (hx : Live s x) :
    BmcOk (phlRecycleStainfo s x) := by
  have hback := hinv.recycle_spec hx
  intro r y hy
  -- what is recorded afterwards was recorded before, and is another station
  have hold : s.macidCtl.sta (s.macidCtl.wroleBmc r) = some y ∧ y ≠ x := by
    obtain ⟨-, hmc, -⟩ | ⟨hge, hmc, -⟩ := hback.macid
    · rw [hmc] at hy
      change Function.update s.macidCtl.sta (s.staInfo x).macid none (s.macidCtl.wroleBmc r) =
        some y at hy
      by_cases hm : s.macidCtl.wroleBmc r = (s.staInfo x).macid
      · rw [hm, Function.update_self] at hy
        cases hy
      · rw [Function.update_of_ne hm] at hy
        refine ⟨hy, ?_⟩
        rintro rfl
        exact hm (hinv.tables.sta hy).2.1.symm
    · rw [hmc] at hy
      refine ⟨hy, ?_⟩
      rintro rfl
      obtain ⟨hlt, hmid, -⟩ := hinv.tables.sta hy
      omega
  rw [hback.other hold.2]
  exact h r y hold.1

theorem newStainfo (h : BmcOk s) (hinv : Inv staNum s) {addr : MacAddr} {ringOk : Bool}
    (hself : selfStainfo s addr r = none) (hfind : rtwPhlGetStainfoByAddr s r addr = none)
    (hok : ringOk = true → ∀ p ∈ newStation s addr r, ∀ r', s.macidCtl.wroleBmc r' = p.2 →
      r' = r ∧ addr = bcAddr) :
    BmcOk (phlNewStainfo s addr r ringOk).2 := by
  rcases heq : phlNewStainfo s addr r ringOk with ⟨_ | x, t⟩
  · obtain ⟨hmc, -, -, -, -, -, hsta⟩ := newStainfo_none heq
    intro r' y hy
    rw [show (none, t).2.macidCtl = s.macidCtl from hmc] at hy
    have hnot : y ∉ s.freeStaQueue.queue :=
      fun hfree => hinv.queues.free_not_assoc hfree (hinv.tables.sta hy).2.2
    rw [hsta y hnot]
    exact h r' y hy
  obtain ⟨m, hnew⟩ := newStainfo_some heq
  obtain ⟨-, hunused⟩ := firstUnused_spec hnew.first
  have hnone := hinv.tables.not_recorded hunused
  have hnotx {m' : ℕ} : s.macidCtl.sta m' ≠ some x :=
    fun hx => hnew.not_inAssoc hinv (hinv.tables.sta hx).2.2
  intro r' y hy
  change t.macidCtl.sta (t.macidCtl.wroleBmc r') = some y at hy
  -- an entry other than the new one
  have hkeep (hy : s.macidCtl.sta (s.macidCtl.wroleBmc r') = some y) :
      (t.staInfo y).wrole = r' ∧ (t.staInfo y).macAddr = bcAddr := by
    have hne : y ≠ x := by
      rintro rfl
      exact hnotx hy
    rw [hnew.other hne]
    exact h r' y hy
  have hbmc : t.macidCtl.wroleBmc =
      if addr == bcAddr then Function.update s.macidCtl.wroleBmc r m else s.macidCtl.wroleBmc := by
    rw [hnew.macidCtl]
    cases ringOk <;> rfl
  have hcache : t.macidCtl.wroleBmc r' = s.macidCtl.wroleBmc r' ∨
      (t.macidCtl.wroleBmc r' = m ∧ r' = r ∧ addr = bcAddr) := by
    rw [hbmc]
    split
    next hbc =>
      by_cases hr : r' = r
      · exact Or.inr ⟨by rw [hr, Function.update_self], hr, beq_iff_eq.mp hbc⟩
      · exact Or.inl (Function.update_of_ne hr ..)
    next => exact Or.inl rfl
  cases ringOk with
  | true =>
    have hsta : t.macidCtl.sta = Function.update s.macidCtl.sta m (some x) := by
      rw [hnew.macidCtl]
      rfl
    rw [hsta] at hy
    by_cases hm : t.macidCtl.wroleBmc r' = m
    · rw [hm, Function.update_self] at hy
      obtain rfl := Option.some.inj hy
      have hrole : r' = r ∧ addr = bcAddr := by
        obtain hold | ⟨-, hrole⟩ := hcache
        · exact hok rfl (x, m) (hnew.newStation hself hfind) r' (hold.symm.trans hm)
        · exact hrole
      show (t.staInfo x).wrole = r' ∧ (t.staInfo x).macAddr = bcAddr
      rw [hnew.self]
      exact ⟨hrole.1.symm, hrole.2⟩
    · rw [Function.update_of_ne hm, hcache.resolve_right fun hnew => hm hnew.1] at hy
      exact hkeep hy
  | false =>
    have hsta : t.macidCtl.sta = s.macidCtl.sta := by
      rw [hnew.macidCtl]
      exact (hinv.tables.clear_assign x { s.staInfo x with macAddr := addr, wrole := r }
        hunused).2.2
    rw [hsta] at hy
    obtain hold | ⟨hm, -⟩ := hcache
    · rw [hold] at hy
      exact hkeep hy
    · rw [hm, hnone] at hy
      cases hy

theorem allocSw (h : BmcOk s) (hinv : Inv staNum s) {addr : MacAddr} {ringOk : Bool}
    (hok : CacheOk s (.allocSw addr r ringOk)) :
    BmcOk (phlAllocStainfoSw s addr r ringOk).2 := by
  obtain ⟨x, hself, hcase⟩ | ⟨-, x, -, hcase⟩ | ⟨hself, hfind, hcase⟩ :=
    allocStainfoSw_cases s addr r ringOk
  · rw [hcase]
    have hr := hinv.queues.wrole (Inv.self_mem hself)
    have hnot := hok.1 x hself
    rw [hinv.broadcast_lookup_eq] at hnot
    refine h.setSta x (fun i => { i with macAddr := addr }) (fun _ => rfl) (Or.inr ?_)
    intro r' hx
    -- the station would be the broadcast station of its own role
    obtain rfl : r' = r := ((h r' x hx).1.symm.trans hr)
    exact hnot hx
  · rw [hcase]
    exact h
  · rw [hcase]
    exact h.newStainfo hinv hself hfind hok.2

theorem step {e : Event} {s' : State} (h : BmcOk s) (hinv : Inv staNum s) (hok : CacheOk s e)
    (hs : Station.step s e = some s') : BmcOk s' := by
  refine hinv.step_rule h (fun addr r ringOk he => ?_) (fun _ _ ht => ht)
    (fun _ x ht => ht.setSta x _ (fun _ => rfl) (Or.inl fun _ => rfl))
    (fun t x _ ht _ hself => ht.setSta x _ (fun _ => rfl) (Or.inr fun r hr => ?_))
    (fun _ _ hinv ht hx => ht.recycle hinv hx) hs
  · obtain rfl | ⟨hwOk, rfl⟩ := he
    · exact h.allocSw hinv hok
    · exact h.allocSw hinv hok
  · -- a station that stands for its role has no broadcast address
    have hbc := hself.1
    rw [(ht r x hr).2] at hbc
    exact absurd hbc (by decide)

end BmcOk

/-- As long as no entry of the cache is spoilt, the lookup of the broadcast address in a role finds
nothing or the live broadcast station of that role. -/
theorem broadcast_lookup (maxNum staNum : ℕ) (wifiRole : ℕ → WifiRole) (es : List Event) (s : State)
    (hrun : run step (init maxNum staNum wifiRole) es = some s)
    (hok : Guarded step CacheOk (init maxNum staNum wifiRole) es) (r : ℕ) :
    rtwPhlGetStainfoByAddr s r bcAddr = none ∨
      ∃ x, rtwPhlGetStainfoByAddr s r bcAddr = some x ∧ x ∈ (s.assocStaQueue r).queue ∧
        (s.staInfo x).wrole = r ∧ (s.staInfo x).macAddr = bcAddr := by
  have hinit : Inv staNum (init maxNum staNum wifiRole) ∧ BmcOk (init maxNum staNum wifiRole) :=
    ⟨inv_init maxNum staNum wifiRole, fun r x hx => by cases hx⟩
  have hstep (s : State) (e : Event) (s' : State) (hs : Inv staNum s ∧ BmcOk s)
      (hoke : CacheOk s e) (he : step s e = some s') : Inv staNum s' ∧ BmcOk s' :=
    ⟨hs.1.step he, hs.2.step hs.1 hoke he⟩
  obtain ⟨hinv, hbmc⟩ := run_preserves _ hstep hinit hok hrun
  cases hfind : rtwPhlGetStainfoByAddr s r bcAddr with
  | none => exact Or.inl rfl
  | some x =>
    have hlive := hinv.live_iff.mpr (hinv.inAssoc_found hfind)
    rw [hinv.broadcast_lookup_eq] at hfind
    obtain ⟨hr, hbc⟩ := hbmc r x hfind
    unfold Live at hlive
    rw [hr] at hlive
    exact Or.inr ⟨x, rfl, hlive, hr, hbc⟩

/-- Two roles, the broadcast station of the first and a client of the second. -/
theorem broadcast_lookup_two_roles : ∃ s, run step (init 128 128 fun _ => ⟨.ap, 1⟩)
    [.alloc bcAddr 0 true true, .alloc 2 1 true true] = some s ∧
    (rtwPhlGetStainfoByAddr s 0 bcAddr = none ∨
      ∃ x, rtwPhlGetStainfoByAddr s 0 bcAddr = some x ∧ x ∈ (s.assocStaQueue 0).queue ∧
        (s.staInfo x).wrole = 0 ∧ (s.staInfo x).macAddr = bcAddr) := by
  have hok : Guarded step CacheOk (init 128 128 fun _ => ⟨.ap, 1⟩)
      [.alloc bcAddr 0 true true, .alloc 2 1 true true] := by
    refine ⟨⟨by decide +kernel, fun _ p hp r' hr' => ?_⟩, fun s' hs => ⟨?_, fun _ _ => trivial⟩⟩
    · -- the cache is empty
      have hp' : newStation (init 128 128 fun _ => ⟨.ap, 1⟩) bcAddr 0 = some (0, 0) := by
        decide +kernel
      obtain rfl := Option.some.inj (hp'.symm.trans hp)
      exact absurd (show 128 = 0 from hr') (by decide)
    · obtain rfl := Option.some.inj hs
      refine ⟨by decide +kernel, fun _ p hp r' hr' => ?_⟩
      -- the entry of the first role is macid 0, and the client takes macid 1
      have hp' : newStation (phlAllocStainfo (init 128 128 fun _ => ⟨.ap, 1⟩) bcAddr 0 true
          true).2.2 2 1 = some (1, 1) := by decide +kernel
      obtain rfl := Option.some.inj (hp'.symm.trans hp)
      match r' with
      | 0 => exact absurd hr' (by decide +kernel)
      | n + 1 => exact absurd (show 128 = 1 from hr') (by decide)
  have hend : (run step (init 128 128 fun _ => ⟨.ap, 1⟩)
      [.alloc bcAddr 0 true true, .alloc 2 1 true true]).isSome = true := by decide +kernel
  obtain ⟨s, hs⟩ := Option.isSome_iff_exists.mp hend
  exact ⟨s, hs, broadcast_lookup 128 128 _ _ s hs hok 0⟩

/-- The broadcast station of role 0 is released, and a client of role 1 takes its macid. The lookup
of the broadcast address in role 0 finds the client. -/
theorem broadcast_lookup_finds_unicast : ∃ s, run step (init 128 128 fun _ => ⟨.ap, 1⟩)
    [.alloc bcAddr 0 true true, .free 0, .alloc 2 1 true true] = some s ∧
    rtwPhlGetStainfoByAddr s 0 bcAddr = some 1 ∧ (s.staInfo 1).wrole = 1 ∧
      (s.staInfo 1).macAddr = 2 := by
  have hend : (run step (init 128 128 fun _ => ⟨.ap, 1⟩)
      [.alloc bcAddr 0 true true, .free 0, .alloc 2 1 true true]).map (fun s =>
        (rtwPhlGetStainfoByAddr s 0 bcAddr, (s.staInfo 1).wrole, (s.staInfo 1).macAddr)) =
      some (some 1, 1, 2) := by decide +kernel
  obtain ⟨s, hs, hview⟩ := Option.map_eq_some_iff.mp hend
  obtain ⟨hfind, hview⟩ := Prod.mk.inj hview
  obtain ⟨hrole, haddr⟩ := Prod.mk.inj hview
  exact ⟨s, hs, hfind, hrole, haddr⟩

end Rtl88x2cu.Station
