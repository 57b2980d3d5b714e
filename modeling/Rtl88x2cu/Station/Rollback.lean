import Rtl88x2cu.Station.Macid

/-!
# The pool after failed allocations

The objects of the pool are always split between the free queue and the queues of the roles, and
the counters are right (`Partitioned`). `stainfo_pool` adds, for runs that meet `StaOk`, that the
stations of a role have different addresses (`Distinct`), and that a failed allocation leaves the
queues, the macid maps and the TX rings as they were (`Restored`).

`StaOk` leaves out the ways in which `_phl_self_stainfo_chk` and the cache of the broadcast stations
go wrong. A station that is given the address of its role, because it is released in a client role,
may meet another station with that address (`released_stations_share_address`). When the hardware
refuses a station, the release that is to undo the allocation keeps a new station that stands for
its role, and gives back a station that was there before.
-/

namespace Rtl88x2cu.Station

open Trx (RtwPhlStatus)

/-! ## Statements -/

/-- Each object of the pool is in exactly one queue, once, nothing else is in a queue, and the
counters are the lengths. -/
structure Partitioned (staNum : ℕ) (s : State) : Prop where
  one_queue {x : ℕ} : x < staNum →
    (x ∈ s.freeStaQueue.queue ∧ ∀ r, x ∉ (s.assocStaQueue r).queue) ∨
    (x ∉ s.freeStaQueue.queue ∧ ∃! r, x ∈ (s.assocStaQueue r).queue)
  free_lt {x : ℕ} : x ∈ s.freeStaQueue.queue → x < staNum
  assoc_lt {r x : ℕ} : x ∈ (s.assocStaQueue r).queue → x < staNum
  free_nodup : s.freeStaQueue.queue.Nodup
  assoc_nodup (r : ℕ) : (s.assocStaQueue r).queue.Nodup
  free_cnt : s.freeStaQueue.cnt = s.freeStaQueue.queue.length
  assoc_cnt (r : ℕ) : (s.assocStaQueue r).cnt = (s.assocStaQueue r).queue.length

theorem Inv.partitioned {staNum : ℕ} {s : State} (h : Inv staNum s) : Partitioned staNum s where
  one_queue {x} hx := by
    obtain hfree | ⟨r, hr⟩ | hhand := (h.queues.cover x).mp hx
    · exact Or.inl ⟨hfree, fun r hr => h.queues.free_not_assoc hfree ⟨r, hr⟩⟩
    · refine Or.inr ⟨fun hfree => h.queues.free_not_assoc hfree ⟨r, hr⟩, r, hr, fun r' hr' => ?_⟩
      rw [← h.queues.wrole hr', ← h.queues.wrole hr]
    · cases hhand
  free_lt hx := (h.queues.cover _).mpr (Or.inl hx)
  assoc_lt hx := (h.queues.cover _).mpr (Or.inr (Or.inl ⟨_, hx⟩))
  free_nodup := h.queues.freeNodup
  assoc_nodup := h.queues.assocNodup
  free_cnt := h.queues.freeWf
  assoc_cnt := h.queues.assocWf

/-- No two stations in the queue of a role have the same address. -/
def Distinct (s : State) : Prop := ∀ r, ∀ x ∈ (s.assocStaQueue r).queue,
  ∀ y ∈ (s.assocStaQueue r).queue, (s.staInfo x).macAddr = (s.staInfo y).macAddr → x = y

/-- The free queue holds the same objects as before, and the queues of the roles, the macid maps
and the TX rings are as they were. -/
structure Restored (s t : State) : Prop where
  free : t.freeStaQueue.queue.Perm s.freeStaQueue.queue
  cnt : t.freeStaQueue.cnt = s.freeStaQueue.cnt
  assoc : t.assocStaQueue = s.assocStaQueue
  usedMap : t.macidCtl.usedMap = s.macidCtl.usedMap
  bmcMap : t.macidCtl.bmcMap = s.macidCtl.bmcMap
  wifiRoleUsedmap : t.macidCtl.wifiRoleUsedmap = s.macidCtl.wifiRoleUsedmap
  sta : t.macidCtl.sta = s.macidCtl.sta
  ring : t.tRingList = s.tRingList

/-- The event is an allocation that reports a failure. -/
def AllocFails (s : State) : Event → Prop
  | .allocSw addr r ringOk => (phlAllocStainfoSw s addr r ringOk).1 = none
  | .alloc addr r ringOk hwOk => (phlAllocStainfo s addr r ringOk hwOk).1 = .failure
  | .allocHw x hwOk => (phlAllocStainfoHw s x hwOk).1 = .failure
  | _ => False

/-! ## The condition -/

/-- The address is not the one of another station in the queue of the station's role. -/
def AddrFree (s : State) (x : ℕ) (addr : MacAddr) : Prop :=
  ∀ y ∈ (s.assocStaQueue (s.staInfo x).wrole).queue, y ≠ x → (s.staInfo y).macAddr ≠ addr

instance (s : State) (x : ℕ) (addr : MacAddr) : Decidable (AddrFree s x addr) :=
  inferInstanceAs (Decidable (∀ y ∈ _, _))

/-- A station with this address stands for the role. -/
def SelfAddr (role : WifiRole) (addr : MacAddr) : Prop :=
  isBroadcastMacAddr addr = false ∧ (IsClient role ∨
    ((role.type = .ap ∨ role.type = .mesh ∨ role.type = .p2pGo) ∧ role.macAddr = addr))

instance (role : WifiRole) (addr : MacAddr) : Decidable (SelfAddr role addr) :=
  inferInstanceAs (Decidable (_ ∧ _))

/-- A release that gives the station the address of its role finds this address free. -/
def FreeAddrOk (s : State) (x : ℕ) : Prop :=
  SelfAddr (s.wifiRole (s.staInfo x).wrole) (s.staInfo x).macAddr →
    IsClient (s.wifiRole (s.staInfo x).wrole) →
    AddrFree s x (s.wifiRole (s.staInfo x).wrole).macAddr

instance (s : State) (x : ℕ) : Decidable (FreeAddrOk s x) :=
  inferInstanceAs (Decidable (_ → _ → _))

/-- The condition on an allocation, by what `phl_alloc_stainfo_sw` finds: the station of the role
itself, whose address is overwritten; the station of the address, or the one the cache leads to;
or none. `hwOk` says that the hardware accepts the station. -/
structure AllocOk (s : State) (addr : MacAddr) (r : ℕ) (hwOk : Bool) : Prop where
  self : ∀ x ∈ selfStainfo s addr r,
    if (s.staInfo x).active || hwOk then AddrFree s x addr
    else AddrFree s x (s.wifiRole r).macAddr
  found : selfStainfo s addr r = none → ∀ x ∈ rtwPhlGetStainfoByAddr s r addr,
    ((s.staInfo x).active || hwOk) = false →
      SelfAddr (s.wifiRole (s.staInfo x).wrole) (s.staInfo x).macAddr ∧ FreeAddrOk s x
  new : ∀ p ∈ newStation s addr r,
    if (s.staInfo p.1).active || hwOk then
      addr = bcAddr → ∀ y ∈ (s.assocStaQueue r).queue, (s.staInfo y).macAddr ≠ bcAddr
    else ¬ SelfAddr (s.wifiRole r) addr ∧
      (addr = bcAddr → phlMacidIsUsed s.macidCtl.bmcMap p.2 = false)

instance (s : State) (addr : MacAddr) (r : ℕ) (hwOk : Bool) :
    Decidable (AllocOk s addr r hwOk) :=
  decidable_of_iff (_ ∧ _ ∧ _) ⟨fun h => ⟨h.1, h.2.1, h.2.2⟩, fun h => ⟨h.self, h.found, h.new⟩⟩

/-- The condition under which the pool stays in order. -/
def StaOk (s : State) : Event → Prop
  | .allocSw addr r _ => AllocOk s addr r true
  | .alloc addr r _ hwOk => AllocOk s addr r hwOk
  | .freeSw x | .free x => FreeAddrOk s x
  | _ => True

instance (s : State) (e : Event) : Decidable (StaOk s e) :=
  match e with
  | .allocSw addr r _ => inferInstanceAs (Decidable (AllocOk s addr r true))
  | .alloc addr r _ hwOk => inferInstanceAs (Decidable (AllocOk s addr r hwOk))
  | .freeSw x => inferInstanceAs (Decidable (FreeAddrOk s x))
  | .free x => inferInstanceAs (Decidable (FreeAddrOk s x))
  | .roleAlloc _ _ => isTrue trivial
  | .allocHw _ _ => isTrue trivial
  | .roleStop _ => isTrue trivial

/-! ## Stations that stand for their role -/

theorem selfStainfoChk_iff (s : State) (r x : ℕ) : (phlSelfStainfoChk s r x).1 = true ↔
    IsClient (s.wifiRole r) ∨ (((s.wifiRole r).type = .ap ∨ (s.wifiRole r).type = .mesh ∨
      (s.wifiRole r).type = .p2pGo) ∧ (s.wifiRole r).macAddr = (s.staInfo x).macAddr) := by
  by_cases hclient : IsClient (s.wifiRole r)
  · exact iff_of_true (selfStainfoChk_client hclient) (Or.inl hclient)
  · rw [or_iff_right hclient]
    unfold phlSelfStainfoChk
    dsimp only
    split
    next htype => exact absurd (Or.inl htype) hclient
    next htype => exact absurd (Or.inr htype) hclient
    next htype => simp [htype]
    next htype => simp [htype]
    next htype => simp [htype]
    next h₁ h₂ h₃ =>
      refine iff_of_false Bool.false_ne_true fun h => ?_
      obtain htype | htype | htype := h.1
      · exact h₁ htype
      · exact h₂ htype
      · exact h₃ htype

theorem isSelf_iff (s : State) (x : ℕ) :
    IsSelf s x ↔ SelfAddr (s.wifiRole (s.staInfo x).wrole) (s.staInfo x).macAddr :=
  and_congr_right fun _ => selfStainfoChk_iff s _ x

/-- The station of the role itself is found only in roles of type station, for an address that is
not the broadcast address. -/
theorem selfStainfo_spec {s : State} {addr : MacAddr} {r x : ℕ}
    (h : selfStainfo s addr r = some x) :
    (s.wifiRole r).type = .station ∧ isBroadcastMacAddr addr = false := by
  unfold selfStainfo at h
  split at h
  next hcond => exact ⟨hcond.1, by simpa using hcond.2⟩
  · cases h

/-! ## Addresses -/

namespace Distinct

variable {staNum : ℕ} {s t : State} {x r : ℕ} {addr : MacAddr}

/-- What the distinctness depends on. -/
theorem congr (h : Distinct s) (hassoc : t.assocStaQueue = s.assocStaQueue)
    (haddr : ∀ y, InAssoc s y → (t.staInfo y).macAddr = (s.staInfo y).macAddr) : Distinct t := by
  intro r y hy z hz heq
  rw [hassoc] at hy hz
  rw [haddr y ⟨r, hy⟩, haddr z ⟨r, hz⟩] at heq
  exact h r y hy z hz heq

theorem setActive (h : Distinct s) (x : ℕ) :
    Distinct (s.setSta x fun i => { i with active := true }) :=
  h.congr rfl fun y _ => setSta_field s x y _ StaInfo.macAddr fun _ => rfl

/-- A station gets an address that is free in its role. -/
theorem setAddr (h : Distinct s) (hinv : Inv staNum s) (hfree : AddrFree s x addr) :
    Distinct (s.setSta x fun i => { i with macAddr := addr }) := by
  -- the other stations of the role of `x` do not have its new address
  have hother {r y : ℕ} (hx : x ∈ (s.assocStaQueue r).queue)
      (hy : y ∈ (s.assocStaQueue r).queue) (hne : y ≠ x) : (s.staInfo y).macAddr ≠ addr := by
    refine hfree y ?_ hne
    rwa [hinv.queues.wrole hx]
  intro r y hy z hz heq
  by_cases hyx : y = x
  · by_cases hzx : z = x
    · rw [hyx, hzx]
    · rw [hyx, setSta_self, setSta_of_ne _ _ hzx] at heq
      rw [hyx] at hy
      exact absurd heq.symm (hother hy hz hzx)
  · by_cases hzx : z = x
    · rw [hzx, setSta_self, setSta_of_ne _ _ hyx] at heq
      rw [hzx] at hz
      exact absurd heq (hother hz hy hyx)
    · rw [setSta_of_ne _ _ hyx, setSta_of_ne _ _ hzx] at heq
      exact h r y hy z hz heq

/-- A station less. -/
theorem recycle (h : Distinct s) (hinv : Inv staNum s) (hx : Live s x) :
    Distinct (phlRecycleStainfo s x) := by
  have hback := hinv.recycle_spec hx
  -- what is left in a queue was there before, and is another station
  have hold {r y : ℕ} (hy : y ∈ ((phlRecycleStainfo s x).assocStaQueue r).queue) :
      y ∈ (s.assocStaQueue r).queue ∧ y ≠ x := by
    have hne := ((hinv.inAssoc_recycle hx y).mp ⟨r, hy⟩).2
    refine ⟨?_, hne⟩
    rw [hback.assoc] at hy
    by_cases hr : r = (s.staInfo x).wrole
    · rw [hr, Function.update_self] at hy
      rw [hr]
      exact ((hinv.queues.mem_queueDel hx).mp hy).1
    · rwa [Function.update_of_ne hr] at hy
  intro r y hy z hz heq
  obtain ⟨hy, hyx⟩ := hold hy
  obtain ⟨hz, hzx⟩ := hold hz
  rw [hback.other hyx, hback.other hzx] at heq
  exact h r y hy z hz heq

/-- A new station with an address that is free in its role. -/
theorem new {ringOk : Bool} {m : ℕ} (h : Distinct s) (hinv : Inv staNum s)
    (hnew : NewSta s addr r ringOk x m t)
    (hfree : ∀ y ∈ (s.assocStaQueue r).queue, (s.staInfo y).macAddr ≠ addr) : Distinct t := by
  have hx := hnew.not_inAssoc hinv
  have haddr : (t.staInfo x).macAddr = addr := by rw [hnew.self]
  -- a station in a queue is the new one, or it was there before with the same contents
  have hold {r' y : ℕ} (hy : y ∈ (t.assocStaQueue r').queue) : (y = x ∧ r' = r) ∨
      (y ∈ (s.assocStaQueue r').queue ∧ (t.staInfo y).macAddr = (s.staInfo y).macAddr) := by
    have hkeep (hmem : y ∈ (s.assocStaQueue r').queue) :
        (t.staInfo y).macAddr = (s.staInfo y).macAddr := by
      rw [hnew.other fun heq => hx ⟨r', heq ▸ hmem⟩]
    rw [hnew.assoc] at hy
    by_cases hr : r' = r
    · rw [hr, Function.update_self] at hy
      obtain hy | hy := List.mem_append.mp hy
      · exact Or.inr ⟨hr ▸ hy, hkeep (hr ▸ hy)⟩
      · exact Or.inl ⟨List.mem_singleton.mp hy, hr⟩
    · rw [Function.update_of_ne hr] at hy
      exact Or.inr ⟨hy, hkeep hy⟩
  intro r' y hy z hz heq
  obtain ⟨rfl, rfl⟩ | ⟨hy, hya⟩ := hold hy
  · obtain ⟨rfl, -⟩ | ⟨hz, hza⟩ := hold hz
    · rfl
    · rw [haddr, hza] at heq
      exact absurd heq.symm (hfree z hz)
  · obtain ⟨rfl, rfl⟩ | ⟨hz, hza⟩ := hold hz
    · rw [haddr, hya] at heq
      exact absurd heq (hfree y hy)
    · rw [hya, hza] at heq
      exact h r' y hy z hz heq

/-- A release that finds the address of the role free. -/
theorem freeSw (h : Distinct s) (hinv : Inv staNum s) (hx : Live s x) (hok : FreeAddrOk s x) :
    Distinct (phlFreeStainfoSw s x).2 := by
  obtain ⟨hself, hclient, hcase⟩ | ⟨-, -, hcase⟩ | ⟨-, hcase⟩ := freeStainfoSw_cases s x
  · rw [hcase]
    exact h.setAddr hinv (hok ((isSelf_iff s x).mp hself) hclient)
  · rw [hcase]
    exact h
  · rw [hcase]
    exact h.recycle hinv hx

end Distinct

/-- The address of a new station is free in its role: the search has not found it. -/
theorem new_addr_free {s : State} {addr : MacAddr} {r : ℕ}
    (hfind : rtwPhlGetStainfoByAddr s r addr = none)
    (hbc : addr = bcAddr → ∀ y ∈ (s.assocStaQueue r).queue, (s.staInfo y).macAddr ≠ bcAddr) :
    ∀ y ∈ (s.assocStaQueue r).queue, (s.staInfo y).macAddr ≠ addr := by
  intro y hy heq
  by_cases haddr : addr = bcAddr
  · exact hbc haddr y hy (heq.trans haddr)
  · have hnot : isBroadcastMacAddr addr = false := by simpa [isBroadcastMacAddr] using haddr
    unfold rtwPhlGetStainfoByAddr at hfind
    rw [hnot] at hfind
    have hne := List.find?_eq_none.mp hfind y hy
    exact hne (by simpa using heq)

/-! ## Failed allocations -/

theorem Restored.refl (s : State) : Restored s s :=
  ⟨List.Perm.refl _, rfl, rfl, rfl, rfl, rfl, rfl, rfl⟩

theorem Restored.of_none {s t : State} {addr : MacAddr} {r : ℕ} {ringOk : Bool}
    (h : phlNewStainfo s addr r ringOk = (none, t)) : Restored s t := by
  obtain ⟨hmc, hassoc, -, hring, hperm, hcnt, -⟩ := newStainfo_none h
  exact ⟨hperm, hcnt, hassoc, by rw [hmc], by rw [hmc], by rw [hmc], by rw [hmc], hring⟩

/-- Deleting a station that has just been put into a queue. -/
theorem queueDel_enqueue {q : PhlQueue ℕ} (h : q.Wf) {x : ℕ} (hx : x ∉ q.queue) :
    phlStainfoQueueDel (phlStainfoEnqueue q x) x = q := by
  have hmem : x ∈ (phlStainfoEnqueue q x).queue :=
    List.mem_append_right _ (List.mem_singleton_self x)
  have hwf : (phlStainfoEnqueue q x).Wf := h.push x
  rw [queueDel_eq hwf hmem]
  show PhlQueue.mk ((q.queue ++ [x]).erase x) (q.cnt + 1 - 1) = q
  rw [List.erase_append_right _ hx, List.erase_cons_head, List.append_nil, Int.add_sub_cancel]

/-- A new station that is given back at once leaves no trace, if the broadcast map had no bit for
its macid. -/
theorem Restored.of_new {staNum : ℕ} {s t : State} {addr : MacAddr} {r x m : ℕ} {ringOk : Bool}
    (hinv : Inv staNum s) (ht : Inv staNum t) (hnew : NewSta s addr r ringOk x m t)
    (hx : Live t x) (hbmc : addr = bcAddr → phlMacidIsUsed s.macidCtl.bmcMap m = false) :
    Restored s (phlRecycleStainfo t x) := by
  have hback := ht.recycle_spec hx
  obtain ⟨hlt, hunused⟩ := firstUnused_spec hnew.first
  have hring := hinv.tables.not_mem_ring (hinv.tables.not_recorded hunused)
  have hwrole : (t.staInfo x).wrole = r := by rw [hnew.self]
  have hmax : t.macidCtl.maxNum = s.macidCtl.maxNum := by
    rw [hnew.macidCtl]
    cases ringOk <;> rfl
  -- the macid is assigned and cleared, by the failed registration or by the release
  have hmacid : (phlRecycleStainfo t x).macidCtl =
        (s.macidCtl.assign x { s.staInfo x with macAddr := addr, wrole := r } m).clear
          { s.staInfo x with macAddr := addr, wrole := r, macid := m } ∧
      (phlRecycleStainfo t x).tRingList = s.tRingList := by
    cases ringOk with
    | true =>
      have hmid : (t.staInfo x).macid = m := by
        rw [hnew.self]
        rfl
      obtain ⟨-, hmc, hr⟩ | ⟨hge, -, -⟩ := hback.macid
      · rw [hmc, hr, hnew.macidCtl, hnew.ring, hmid, hnew.self]
        refine ⟨rfl, ?_⟩
        show (s.tRingList ++ [m]).erase m = s.tRingList
        rw [List.erase_append_right _ hring, List.erase_cons_head, List.append_nil]
      · omega
    | false =>
      have hmid : (t.staInfo x).macid = s.macidCtl.maxNum := by
        rw [hnew.self]
        rfl
      obtain ⟨hlt', -, -⟩ | ⟨-, hmc, hr⟩ := hback.macid
      · omega
      · rw [hmc, hr, hnew.macidCtl, hnew.ring]
        exact ⟨rfl, rfl⟩
  obtain ⟨hused, hrole, hsta⟩ := hinv.tables.clear_assign x
    { s.staInfo x with macAddr := addr, wrole := r } hunused
  refine ⟨?_, ?_, ?_, ?_, ?_, ?_, ?_, hmacid.2⟩
  · rw [hback.free, hnew.free]
    exact List.perm_append_singleton x t.freeStaQueue.queue
  · rw [hback.free]
    show t.freeStaQueue.cnt + 1 = s.freeStaQueue.cnt
    rw [hnew.cnt]
    omega
  · have hnot : x ∉ (s.assocStaQueue r).queue := fun hmem => hnew.not_inAssoc hinv ⟨r, hmem⟩
    rw [hback.assoc, hwrole, hnew.assoc, Function.update_self, Function.update_idem,
      queueDel_enqueue (hinv.queues.assocWf r) hnot, Function.update_eq_self]
  · rw [hmacid.1]
    exact hused
  · rw [hmacid.1]
    show (if addr == bcAddr then phlMacidMapClr (if addr == bcAddr then _ else _) m else
      if addr == bcAddr then _ else _) = s.macidCtl.bmcMap
    cases haddr : addr == bcAddr with
    | true => exact macidMap_clr_set (hbmc (beq_iff_eq.mp haddr))
    | false => rfl
  · rw [hmacid.1]
    exact hrole
  · rw [hmacid.1]
    exact hsta

/-- The addresses are distinct after the allocation, and a failure leaves no trace. -/
def AllocSpec (s : State) (out : RtwPhlStatus × Option ℕ × State) : Prop :=
  Distinct out.2.2 ∧ (out.1 = .failure → Restored s out.2.2)

section AllocSpec

variable {staNum : ℕ} {s : State} {addr : MacAddr} {r x : ℕ} {ringOk hwOk : Bool}

/-- The release of the station of the role itself, after its address has been overwritten, gives it
the address of the role. -/
theorem freeStainfoSw_self (hinv : Inv staNum s) (hself : selfStainfo s addr r = some x) :
    (phlFreeStainfoSw (s.setSta x fun i => { i with macAddr := addr }) x).2 =
      s.setSta x fun i => { i with macAddr := (s.wifiRole r).macAddr } := by
  obtain ⟨htype, hbc⟩ := selfStainfo_spec hself
  have hclient : IsClient (s.wifiRole r) := Or.inl htype
  have hwrole : ((s.setSta x fun i => { i with macAddr := addr }).staInfo x).wrole = r := by
    rw [setSta_self]
    exact hinv.queues.wrole (Inv.self_mem hself)
  obtain ⟨-, -, hfree⟩ | ⟨-, hno, -⟩ | ⟨hno, -⟩ :=
    freeStainfoSw_cases (s.setSta x fun i => { i with macAddr := addr }) x
  · rw [hfree, hwrole]
    simp only [State.setSta, Function.update_self, Function.update_idem]
  · rw [hwrole] at hno
    exact absurd hclient hno
  · rw [isSelf_iff, hwrole] at hno
    exact absurd ⟨by rw [setSta_self]; exact hbc, Or.inl hclient⟩ hno

/-- The allocation takes the station of the role itself. -/
theorem allocSpec_self (hinv : Inv staNum s) (hd : Distinct s) (hok : AllocOk s addr r hwOk)
    (hself : selfStainfo s addr r = some x)
    (hsw : phlAllocStainfoSw s addr r ringOk =
      (some x, s.setSta x fun i => { i with macAddr := addr })) :
    AllocSpec s (phlAllocStainfo s addr r ringOk hwOk) := by
  have hcond := hok.self x hself
  obtain ⟨t, heq, -⟩ | ⟨y, t, heq, hcase⟩ := allocStainfo_cases s addr r ringOk hwOk
  · rw [hsw] at heq
    cases heq
  rw [hsw] at heq
  obtain ⟨hy, rfl⟩ := Prod.mk.inj heq
  obtain rfl := Option.some.inj hy
  rw [setSta_self] at hcase
  obtain ⟨hact, hcase⟩ | ⟨-, rfl, hcase⟩ | ⟨hact, rfl, hcase⟩ := hcase
  · change (s.staInfo x).active = true at hact
    rw [if_pos (by rw [hact, Bool.true_or])] at hcond
    rw [hcase]
    exact ⟨hd.setAddr hinv hcond, fun h => by cases h⟩
  · rw [if_pos (by rw [Bool.or_true])] at hcond
    rw [hcase]
    exact ⟨(hd.setAddr hinv hcond).setActive x, fun h => by cases h⟩
  · -- the release gives the station the address of the role
    change (s.staInfo x).active = false at hact
    rw [if_neg (by rw [hact]; exact Bool.false_ne_true)] at hcond
    rw [hcase, freeStainfoSw_self hinv hself]
    exact ⟨hd.setAddr hinv hcond, fun _ => ⟨List.Perm.refl _, rfl, rfl, rfl, rfl, rfl, rfl, rfl⟩⟩

/-- The allocation finds a station that was there before. -/
theorem allocSpec_found (hinv : Inv staNum s) (hd : Distinct s) (hok : AllocOk s addr r hwOk)
    (hself : selfStainfo s addr r = none) (hfind : rtwPhlGetStainfoByAddr s r addr = some x)
    (hsw : phlAllocStainfoSw s addr r ringOk = (some x, s)) :
    AllocSpec s (phlAllocStainfo s addr r ringOk hwOk) := by
  have hlive := hinv.allocSw_live hsw
  obtain ⟨t, heq, -⟩ | ⟨y, t, heq, hcase⟩ := allocStainfo_cases s addr r ringOk hwOk
  · rw [hsw] at heq
    cases heq
  rw [hsw] at heq
  obtain ⟨hy, rfl⟩ := Prod.mk.inj heq
  obtain rfl := Option.some.inj hy
  obtain ⟨-, hcase⟩ | ⟨-, -, hcase⟩ | ⟨hact, rfl, hcase⟩ := hcase
  · rw [hcase]
    exact ⟨hd, fun h => by cases h⟩
  · rw [hcase]
    exact ⟨hd.setActive x, fun h => by cases h⟩
  · -- the hardware refuses the station, which is kept because it stands for its role
    obtain ⟨hselfaddr, hfreeok⟩ := hok.found hself x hfind (by rw [hact]; rfl)
    rw [hcase]
    refine ⟨hd.freeSw hinv hlive hfreeok, fun _ => ?_⟩
    show Restored s (phlFreeStainfoSw s x).2
    obtain ⟨-, -, hfree⟩ | ⟨-, -, hfree⟩ | ⟨hno, -⟩ := freeStainfoSw_cases s x
    · rw [hfree]
      exact ⟨List.Perm.refl _, rfl, rfl, rfl, rfl, rfl, rfl, rfl⟩
    · rw [hfree]
      exact Restored.refl s
    · exact absurd ((isSelf_iff s x).mpr hselfaddr) hno

/-- The allocation takes a new station, or there is none to take. -/
theorem allocSpec_new (hinv : Inv staNum s) (hd : Distinct s) (hok : AllocOk s addr r hwOk)
    (hself : selfStainfo s addr r = none) (hfind : rtwPhlGetStainfoByAddr s r addr = none)
    (hsw : phlAllocStainfoSw s addr r ringOk = phlNewStainfo s addr r ringOk) :
    AllocSpec s (phlAllocStainfo s addr r ringOk hwOk) := by
  have ht := hinv.allocSw addr r ringOk
  obtain ⟨t, heq, hcase⟩ | ⟨x, t, heq, hcase⟩ := allocStainfo_cases s addr r ringOk hwOk
  · rw [hsw] at heq
    obtain ⟨-, hassoc, -, -, -, -, hsta⟩ := newStainfo_none heq
    rw [hcase]
    refine ⟨hd.congr hassoc fun y hy => ?_, fun _ => Restored.of_none heq⟩
    rw [hsta y fun hfree => hinv.queues.free_not_assoc hfree hy]
  have hlive := hinv.allocSw_live heq
  rw [heq] at ht
  rw [hsw] at heq
  obtain ⟨m, hnew⟩ := newStainfo_some heq
  have hcond := hok.new (x, m) (hnew.newStation hself hfind)
  have hactive : (t.staInfo x).active = (s.staInfo x).active := by rw [hnew.self]
  rw [hactive] at hcase
  obtain ⟨hact, hcase⟩ | ⟨-, rfl, hcase⟩ | ⟨hact, rfl, hcase⟩ := hcase
  · rw [if_pos (by rw [hact, Bool.true_or])] at hcond
    rw [hcase]
    exact ⟨hd.new hinv hnew (new_addr_free hfind hcond), fun h => by cases h⟩
  · rw [if_pos (by rw [Bool.or_true])] at hcond
    rw [hcase]
    exact ⟨(hd.new hinv hnew (new_addr_free hfind hcond)).setActive x, fun h => by cases h⟩
  · -- the hardware refuses the new station, which is given back
    rw [if_neg (by rw [hact]; exact Bool.false_ne_true)] at hcond
    have hnoself : ¬ IsSelf t x := by
      rw [isSelf_iff, hnew.role, hnew.self]
      exact hcond.1
    rw [hcase]
    obtain ⟨hyes, -, -⟩ | ⟨hyes, -, -⟩ | ⟨-, hfree⟩ := freeStainfoSw_cases t x
    · exact absurd hyes hnoself
    · exact absurd hyes hnoself
    · rw [hfree]
      have hrest := Restored.of_new hinv ht hnew hlive hcond.2
      refine ⟨hd.congr hrest.assoc fun y hy => ?_, fun _ => hrest⟩
      have hne : y ≠ x := fun heq => hnew.not_inAssoc hinv (heq ▸ hy)
      show ((phlRecycleStainfo t x).staInfo y).macAddr = _
      rw [(ht.recycle_spec hlive).other hne, hnew.other hne]

/-- What an allocation does under the condition. -/
theorem allocSpec (ringOk : Bool) (hinv : Inv staNum s) (hd : Distinct s)
    (hok : AllocOk s addr r hwOk) : AllocSpec s (phlAllocStainfo s addr r ringOk hwOk) := by
  obtain ⟨x, hself, hsw⟩ | ⟨hself, x, hfind, hsw⟩ | ⟨hself, hfind, hsw⟩ :=
    allocStainfoSw_cases s addr r ringOk
  · exact allocSpec_self hinv hd hok hself hsw
  · exact allocSpec_found hinv hd hok hself hfind hsw
  · exact allocSpec_new hinv hd hok hself hfind hsw

/-- Without the hardware, an allocation is the first part of one that the hardware accepts. -/
theorem allocSw_spec (ringOk : Bool) (hinv : Inv staNum s) (hd : Distinct s)
    (hok : AllocOk s addr r true) : Distinct (phlAllocStainfoSw s addr r ringOk).2 ∧
      ((phlAllocStainfoSw s addr r ringOk).1 = none →
        Restored s (phlAllocStainfoSw s addr r ringOk).2) := by
  have hspec := allocSpec ringOk hinv hd hok
  obtain ⟨t, heq, hcase⟩ | ⟨x, t, heq, ⟨-, hcase⟩ | ⟨-, -, hcase⟩ | ⟨-, hno, -⟩⟩ :=
    allocStainfo_cases s addr r ringOk true
  · rw [hcase] at hspec
    rw [heq]
    exact ⟨hspec.1, fun _ => hspec.2 rfl⟩
  · rw [hcase] at hspec
    rw [heq]
    exact ⟨hspec.1, fun h => by cases h⟩
  · rw [hcase] at hspec
    rw [heq]
    refine ⟨hspec.1.congr rfl fun y _ => ?_, fun h => by cases h⟩
    exact (setSta_field t x y (fun i => { i with active := true }) StaInfo.macAddr
      fun _ => rfl).symm
  · cases hno

end AllocSpec

/-! ## Runs -/

/-- A step under the condition keeps the addresses distinct, and a failed allocation leaves no
trace. -/
theorem Distinct.step {staNum : ℕ} {s s' : State} {e : Event} (hd : Distinct s)
    (hinv : Inv staNum s) (hok : StaOk s e) (hs : Station.step s e = some s') :
    Distinct s' ∧ (AllocFails s e → Restored s s') := by
  cases e with
  | roleAlloc r role =>
    obtain rfl := Option.some.inj hs
    exact ⟨hd, fun h => h.elim⟩
  | allocSw addr r ringOk =>
    obtain rfl := Option.some.inj hs
    exact allocSw_spec ringOk hinv hd hok
  | alloc addr r ringOk hwOk =>
    obtain rfl := Option.some.inj hs
    exact allocSpec ringOk hinv hd hok
  | allocHw x hwOk =>
    obtain rfl := Option.some.inj (Option.ite_none_right_eq_some.mp hs).2
    cases hwOk with
    | true => exact ⟨hd.setActive x, fun h => by cases h⟩
    | false => exact ⟨hd, fun _ => Restored.refl s⟩
  | freeSw x =>
    obtain ⟨hx, hs⟩ := Option.ite_none_right_eq_some.mp hs
    obtain rfl := Option.some.inj hs
    exact ⟨hd.freeSw hinv hx hok, fun h => h.elim⟩
  | free x =>
    obtain ⟨hx, hs⟩ := Option.ite_none_right_eq_some.mp hs
    obtain rfl := Option.some.inj hs
    exact ⟨hd.freeSw hinv hx hok, fun h => h.elim⟩
  | roleStop r =>
    obtain rfl := Option.some.inj hs
    exact ⟨(Inv.roleFreeLoop_induct (P := Distinct) (fun _ _ hinv h hx => h.recycle hinv hx) r _
      hinv hd).2, fun h => h.elim⟩

/-- In every reachable state the pool is split between the queues. If all events met the condition,
the stations of each role have different addresses, and the next allocation that fails, under the
condition again, leaves the queues, the macid maps and the TX rings as they were. -/
theorem stainfo_pool (maxNum staNum : ℕ) (wifiRole : ℕ → WifiRole) (es : List Event) (s : State)
    (hrun : run step (init maxNum staNum wifiRole) es = some s) :
    Partitioned staNum s ∧ (Guarded step StaOk (init maxNum staNum wifiRole) es →
      Distinct s ∧ ∀ e s', StaOk s e → step s e = some s' → AllocFails s e → Restored s s') := by
  refine ⟨(run_inv hrun).partitioned, fun hok => ?_⟩
  have hinit : Inv staNum (init maxNum staNum wifiRole) ∧ Distinct (init maxNum staNum wifiRole) :=
    ⟨inv_init maxNum staNum wifiRole, fun r x hx => by cases hx⟩
  have hstep (s : State) (e : Event) (s' : State) (hs : Inv staNum s ∧ Distinct s)
      (hoke : StaOk s e) (he : step s e = some s') : Inv staNum s' ∧ Distinct s' :=
    ⟨hs.1.step he, (hs.2.step hs.1 hoke he).1⟩
  obtain ⟨hinv, hd⟩ := run_preserves _ hstep hinit hok hrun
  exact ⟨hd, fun e s' hoke hstep => (hd.step hinv hoke hstep).2⟩

/-- An access point with its broadcast station and a client; the hardware then refuses another
client. -/
theorem stainfo_pool_ap : ∃ s s', run step (init 128 128 fun _ => ⟨.ap, 1⟩)
    [.alloc 1 0 true true, .alloc bcAddr 0 true true, .alloc 2 0 true true] = some s ∧
    step s (.alloc 3 0 true false) = some s' ∧ Distinct s ∧ Restored s s' := by
  have hend : (run step (init 128 128 fun _ => ⟨.ap, 1⟩)
      [.alloc 1 0 true true, .alloc bcAddr 0 true true, .alloc 2 0 true true]).map
      (fun s => (decide (StaOk s (.alloc 3 0 true false)),
        (phlAllocStainfo s 3 0 true false).1)) = some (true, .failure) := by decide +kernel
  have hok : Guarded step StaOk (init 128 128 fun _ => ⟨.ap, 1⟩)
      [.alloc 1 0 true true, .alloc bcAddr 0 true true, .alloc 2 0 true true] := by decide +kernel
  obtain ⟨s, hs, hview⟩ := Option.map_eq_some_iff.mp hend
  obtain ⟨hcond, hfail⟩ := Prod.mk.inj hview
  obtain ⟨hd, hrest⟩ := (stainfo_pool 128 128 _ _ s hs).2 hok
  exact ⟨s, _, hs, rfl, hd, hrest _ _ (of_decide_eq_true hcond) rfl hfail⟩

/-- A P2P client with its own station and the one of the group owner: releasing the latter gives it
the address of the role and keeps it in the queue. -/
theorem released_stations_share_address : ∃ s, run step (init 128 128 fun _ => ⟨.p2pGc, 1⟩)
    [.alloc 1 0 true true, .alloc 2 0 true true, .free 1] = some s ∧
    (s.assocStaQueue 0).queue = [0, 1] ∧ (s.staInfo 0).macAddr = (s.staInfo 1).macAddr := by
  have hend : (run step (init 128 128 fun _ => ⟨.p2pGc, 1⟩)
      [.alloc 1 0 true true, .alloc 2 0 true true, .free 1]).map (fun s =>
        ((s.assocStaQueue 0).queue, decide ((s.staInfo 0).macAddr = (s.staInfo 1).macAddr))) =
      some ([0, 1], true) := by decide +kernel
  obtain ⟨s, hs, hview⟩ := Option.map_eq_some_iff.mp hend
  obtain ⟨hqueue, haddr⟩ := Prod.mk.inj hview
  exact ⟨s, hs, hqueue, of_decide_eq_true haddr⟩

end Rtl88x2cu.Station
