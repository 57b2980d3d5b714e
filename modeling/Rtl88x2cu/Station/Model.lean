import Rtl88x2cu.Lib.Run
import Rtl88x2cu.PhlQueue
import Rtl88x2cu.Trx.RingIndex

/-!
# Stations

The station tables of `phl/phl_sta.c`: the pool of station-info objects with its free queue, the
queues of associated stations of the wifi roles, the macid control block with its bitmaps and its
pointer table, and the list of registered TX rings of `phl/phl_tx.c`.

Station-info objects are numbered by their place in the pool, wifi roles by their id. A macid
bitmap is the array of 32-bit words it is in the source. The outcome of what lies below these
functions, the memory allocation of a TX ring list and `rtw_hal_add_sta_entry`, is a parameter of
the events. The list of rings whose memory is freed later is only written here, and left out.
-/

namespace Rtl88x2cu.Station

open Trx (RtwPhlStatus)

/-! ## Bitmaps of macids -/

/-- A bitmap of macids, an array of `u32`. -/
abbrev MacidMap := ℕ → BitVec 32

/-- `_phl_macid_is_used`. -/
def phlMacidIsUsed (map : MacidMap) (id : ℕ) : Bool :=
  (map (id / 32)).getLsbD (id % 32)

/-- `_phl_macid_map_set`. -/
def phlMacidMapSet (map : MacidMap) (id : ℕ) : MacidMap :=
  Function.update map (id / 32) (map (id / 32) ||| BitVec.twoPow 32 (id % 32))

/-- `_phl_macid_map_clr`. -/
def phlMacidMapClr (map : MacidMap) (id : ℕ) : MacidMap :=
  Function.update map (id / 32) (map (id / 32) &&& ~~~ BitVec.twoPow 32 (id % 32))

/-! ## Data -/

/-- `enum role_type`. -/
inductive RoleType
  | none | station | ap | vap | adhoc | adhocMaster | mesh | monitor | p2pDevice | p2pGc | p2pGo
  | tdls | nan | mlmeMax
  deriving DecidableEq, Repr

/-- A MAC address. -/
abbrev MacAddr := BitVec 48

/-- The broadcast address `ff:ff:ff:ff:ff:ff`. -/
def bcAddr : MacAddr := BitVec.allOnes 48

/-- `is_broadcast_mac_addr`. -/
def isBroadcastMacAddr (addr : MacAddr) : Bool := addr == bcAddr

/-- The fields of `struct rtw_phl_stainfo_t` that the station tables use. -/
structure StaInfo where
  macAddr : MacAddr
  wrole : ℕ
  macid : ℕ
  active : Bool
  deriving DecidableEq, Repr

/-- The fields of `struct rtw_wifi_role_t` that the station tables use, the queue apart. -/
structure WifiRole where
  type : RoleType
  macAddr : MacAddr
  deriving DecidableEq, Repr

/-- `struct g6_macid_ctl_t`. -/
structure MacidCtl where
  usedMap : MacidMap
  bmcMap : MacidMap
  wifiRoleUsedmap : ℕ → MacidMap
  wroleBmc : ℕ → ℕ
  sta : ℕ → Option ℕ
  maxNum : ℕ

/-- The station tables. -/
structure State where
  macidCtl : MacidCtl
  /-- The station-info objects of the pool. -/
  staInfo : ℕ → StaInfo
  freeStaQueue : PhlQueue ℕ
  assocStaQueue : ℕ → PhlQueue ℕ
  wifiRole : ℕ → WifiRole
  /-- The macids of the TX ring lists in `t_ring_list`. -/
  tRingList : List ℕ

/-- The tables after `phl_macid_ctrl_init` and `phl_stainfo_ctrl_init`, with `staNum` objects in
the pool and the roles `wifiRole`. -/
def init (maxNum staNum : ℕ) (wifiRole : ℕ → WifiRole) : State where
  macidCtl := {
    usedMap := fun _ => 0
    bmcMap := fun _ => 0
    wifiRoleUsedmap := fun _ _ => 0
    wroleBmc := fun _ => maxNum
    sta := fun _ => none
    maxNum := maxNum }
  staInfo := fun _ => { macAddr := 0, wrole := 0, macid := 0, active := false }
  freeStaQueue := { queue := List.range staNum, cnt := staNum }
  assocStaQueue := fun _ => pqInit
  wifiRole := wifiRole
  tRingList := []

namespace State

/-- Write fields of one station-info object. -/
def setSta (s : State) (x : ℕ) (f : StaInfo → StaInfo) : State :=
  { s with staInfo := Function.update s.staInfo x (f (s.staInfo x)) }

/-- Replace the queue of associated stations of a role. -/
def setAssoc (s : State) (r : ℕ) (q : PhlQueue ℕ) : State :=
  { s with assocStaQueue := Function.update s.assocStaQueue r q }

end State

/-! ## Queues of stations -/

/-- `phl_stainfo_enqueue`. -/
def phlStainfoEnqueue (q : PhlQueue ℕ) (x : ℕ) : PhlQueue ℕ := pqPush q x

/-- `phl_stainfo_dequeue`, which looks at the list and not at the counter. -/
def phlStainfoDequeue (q : PhlQueue ℕ) : Option (ℕ × PhlQueue ℕ) :=
  match q.queue with
  | [] => none
  | x :: l => some (x, { queue := l, cnt := q.cnt - 1 })

/-- `phl_stainfo_queue_del`. -/
def phlStainfoQueueDel (q : PhlQueue ℕ) (x : ℕ) : PhlQueue ℕ :=
  if q.cnt ≠ 0 then { queue := q.queue.erase x, cnt := q.cnt - 1 } else q

/-- `phl_stainfo_queue_search`. -/
def phlStainfoQueueSearch (s : State) (q : PhlQueue ℕ) (addr : MacAddr) : Option ℕ :=
  q.queue.find? fun x => (s.staInfo x).macAddr == addr

/-- `phl_stainfo_queue_get_first`. -/
def phlStainfoQueueGetFirst (q : PhlQueue ℕ) : Option ℕ := q.queue.head?

/-! ## Macids and TX rings -/

/-- The lowest macid that is not used, which the loop of `_phl_alloc_macid` stops at. -/
def firstUnused (mc : MacidCtl) : Option ℕ :=
  (List.range mc.maxNum).find? fun mid => !phlMacidIsUsed mc.usedMap mid

/-- The entries that `_phl_alloc_macid` makes for the macid `mid`, given to the station `x`. -/
def MacidCtl.assign (mc : MacidCtl) (x : ℕ) (i : StaInfo) (mid : ℕ) : MacidCtl :=
  let bmcSta := i.macAddr == bcAddr
  { mc with
    usedMap := phlMacidMapSet mc.usedMap mid
    wifiRoleUsedmap := Function.update mc.wifiRoleUsedmap i.wrole
      (phlMacidMapSet (mc.wifiRoleUsedmap i.wrole) mid)
    sta := Function.update mc.sta mid (some x)
    bmcMap := if bmcSta then phlMacidMapSet mc.bmcMap mid else mc.bmcMap
    wroleBmc := if bmcSta then Function.update mc.wroleBmc i.wrole mid else mc.wroleBmc }

/-- `_phl_alloc_macid`. -/
def phlAllocMacid (s : State) (x : ℕ) : RtwPhlStatus × State :=
  let mc := s.macidCtl
  match firstUnused mc with
  | none => (.failure, s.setSta x fun i => { i with macid := mc.maxNum })
  | some mid =>
    (.success, { s with macidCtl := mc.assign x (s.staInfo x) mid }.setSta x
      fun i => { i with macid := mid })

/-- The entries that `_phl_release_macid` removes. The cache `wrole_bmc` keeps its entry. -/
def MacidCtl.clear (mc : MacidCtl) (i : StaInfo) : MacidCtl :=
  { mc with
    usedMap := phlMacidMapClr mc.usedMap i.macid
    wifiRoleUsedmap := Function.update mc.wifiRoleUsedmap i.wrole
      (phlMacidMapClr (mc.wifiRoleUsedmap i.wrole) i.macid)
    sta := Function.update mc.sta i.macid none
    bmcMap := if i.macAddr == bcAddr then phlMacidMapClr mc.bmcMap i.macid else mc.bmcMap }

/-- `_phl_release_macid`. -/
def phlReleaseMacid (s : State) (x : ℕ) : RtwPhlStatus × State :=
  let mc := s.macidCtl
  let macid := (s.staInfo x).macid
  let invalidate (t : State) := t.setSta x fun i => { i with macid := mc.maxNum }
  if mc.maxNum ≤ macid then (.failure, invalidate s)
  else if !phlMacidIsUsed mc.usedMap macid then (.failure, invalidate s)
  else (.success, invalidate { s with macidCtl := mc.clear (s.staInfo x) })

/-- `phl_register_tx_ring`; `ok` is the outcome of the memory allocation. -/
def phlRegisterTxRing (s : State) (macid : ℕ) (ok : Bool) : RtwPhlStatus × State :=
  if ok then (.success, { s with tRingList := s.tRingList ++ [macid] }) else (.failure, s)

/-- `phl_deregister_tx_ring`: unlink the first ring list of the macid. -/
def phlDeregisterTxRing (s : State) (macid : ℕ) : RtwPhlStatus × State :=
  if macid ∈ s.tRingList then (.success, { s with tRingList := s.tRingList.erase macid })
  else (.failure, s)

/-! ## Release -/

/-- `_phl_free_stainfo_sw`: the ring and the macid of a station. -/
def phlFreeStainfoSw₀ (s : State) (x : ℕ) : RtwPhlStatus × State :=
  phlReleaseMacid (phlDeregisterTxRing s (s.staInfo x).macid).2 x

/-- `_phl_self_stainfo_chk`: whether the station stands for the role itself. For a station or a
P2P client the address of the role is copied to it. -/
def phlSelfStainfoChk (s : State) (wrole x : ℕ) : Bool × State :=
  let role := s.wifiRole wrole
  match role.type with
  | .station | .p2pGc => (true, s.setSta x fun i => { i with macAddr := role.macAddr })
  | .ap | .mesh | .p2pGo => (role.macAddr == (s.staInfo x).macAddr, s)
  | _ => (false, s)

/-- Back to the pool: the part of `phl_free_stainfo_sw` after the check for the role itself. -/
def phlRecycleStainfo (s : State) (x : ℕ) : State :=
  let wrole := (s.staInfo x).wrole
  let s₁ := s.setAssoc wrole (phlStainfoQueueDel (s.assocStaQueue wrole) x)
  let s₂ := (phlFreeStainfoSw₀ s₁ x).2
  { s₂ with freeStaQueue := phlStainfoEnqueue s₂.freeStaQueue x }

/-- `phl_free_stainfo_sw`. -/
def phlFreeStainfoSw (s : State) (x : ℕ) : RtwPhlStatus × State :=
  if !isBroadcastMacAddr (s.staInfo x).macAddr then
    match phlSelfStainfoChk s (s.staInfo x).wrole x with
    | (true, s') => (.success, s')
    | (false, s') => (.success, phlRecycleStainfo s' x)
  else (.success, phlRecycleStainfo s x)

/-- `phl_free_stainfo_hw`, whose body is compiled out. -/
def phlFreeStainfoHw (s : State) (_x : ℕ) : RtwPhlStatus × State := (.failure, s)

/-- `__phl_free_stainfo`. -/
def phlFreeStainfo (s : State) (x : ℕ) : RtwPhlStatus × State :=
  phlFreeStainfoSw (phlFreeStainfoHw s x).2 x

/-- The loop of `phl_wifi_role_free_stainfo_sw`: until the queue of the role is empty. -/
def phlWifiRoleFreeLoop (r : ℕ) : ℕ → State → State
  | 0, s => s
  | n + 1, s =>
    match phlStainfoDequeue (s.assocStaQueue r) with
    | none => s
    | some (x, q) =>
      let s₁ := (phlFreeStainfoSw₀ (s.setAssoc r q) x).2
      phlWifiRoleFreeLoop r n
        { s₁ with freeStaQueue := phlStainfoEnqueue s₁.freeStaQueue x }

/-- `phl_wifi_role_free_stainfo_sw`. The rounds of the loop are as many as there are stations. -/
def phlWifiRoleFreeStainfoSw (s : State) (r : ℕ) : State :=
  phlWifiRoleFreeLoop r (s.assocStaQueue r).queue.length s

/-! ## Allocation -/

/-- `rtw_phl_get_stainfo_self`. -/
def rtwPhlGetStainfoSelf (s : State) (r : ℕ) : Option ℕ :=
  phlStainfoQueueGetFirst (s.assocStaQueue r)

/-- `rtw_phl_get_stainfo_by_addr`. -/
def rtwPhlGetStainfoByAddr (s : State) (r : ℕ) (addr : MacAddr) : Option ℕ :=
  if isBroadcastMacAddr addr then
    let macid := s.macidCtl.wroleBmc r
    if s.macidCtl.maxNum ≤ macid then none else s.macidCtl.sta macid
  else phlStainfoQueueSearch s (s.assocStaQueue r) addr

/-- `_phl_alloc_stainfo_sw`: a macid and a ring for a station. When the ring cannot be registered
the macid is released again, and the status is the one that `_phl_alloc_macid` left. -/
def phlAllocStainfoSw₀ (s : State) (x : ℕ) (ringOk : Bool) : RtwPhlStatus × State :=
  match phlAllocMacid s x with
  | (.success, s₁) =>
    match phlRegisterTxRing s₁ (s₁.staInfo x).macid ringOk with
    | (.success, s₂) => (.success, s₂)
    | (_, s₂) => (.success, (phlReleaseMacid s₂ x).2)
  | (st, s₁) => (st, s₁)

/-- The part of `phl_alloc_stainfo_sw` that takes a new station from the pool. -/
def phlNewStainfo (s : State) (addr : MacAddr) (r : ℕ) (ringOk : Bool) : Option ℕ × State :=
  match phlStainfoDequeue s.freeStaQueue with
  | none => (none, s)
  | some (x, q) =>
    let s₁ := { s with freeStaQueue := q }.setSta x fun i =>
      { i with macAddr := addr, wrole := r }
    match phlAllocStainfoSw₀ s₁ x ringOk with
    | (.success, s₂) =>
      (some x, s₂.setAssoc r (phlStainfoEnqueue (s₂.assocStaQueue r) x))
    | (_, s₂) => (none, { s₂ with freeStaQueue := phlStainfoEnqueue s₂.freeStaQueue x })

/-- The station that `phl_alloc_stainfo_sw` takes as the one of the role itself: the first station
of a role of type `PHL_RTYPE_STATION`, for an address that is not the broadcast address. -/
def selfStainfo (s : State) (addr : MacAddr) (r : ℕ) : Option ℕ :=
  if (s.wifiRole r).type = .station ∧ !isBroadcastMacAddr addr then rtwPhlGetStainfoSelf s r
  else none

/-- `phl_alloc_stainfo_sw`. -/
def phlAllocStainfoSw (s : State) (addr : MacAddr) (r : ℕ) (ringOk : Bool) : Option ℕ × State :=
  match selfStainfo s addr r with
  | some x => (some x, s.setSta x fun i => { i with macAddr := addr })
  | none =>
    match rtwPhlGetStainfoByAddr s r addr with
    | some x => (some x, s)
    | none => phlNewStainfo s addr r ringOk

/-- `phl_alloc_stainfo_hw`; `hwOk` is the outcome of `rtw_hal_add_sta_entry`. -/
def phlAllocStainfoHw (s : State) (x : ℕ) (hwOk : Bool) : RtwPhlStatus × State :=
  if hwOk then (.success, s.setSta x fun i => { i with active := true }) else (.failure, s)

/-- `__phl_alloc_stainfo`. -/
def phlAllocStainfo (s : State) (addr : MacAddr) (r : ℕ) (ringOk hwOk : Bool) :
    RtwPhlStatus × Option ℕ × State :=
  match phlAllocStainfoSw s addr r ringOk with
  | (none, s₁) => (.failure, none, s₁)
  | (some x, s₁) =>
    if (s₁.staInfo x).active then (.success, some x, s₁)
    else
      match phlAllocStainfoHw s₁ x hwOk with
      | (.success, s₂) => (.success, some x, s₂)
      | (_, s₂) => (.failure, none, (phlFreeStainfoSw s₂ x).2)

/-! ## Runs -/

/-- The station is in the queue of its role: it has been allocated and not been released. -/
def Live (s : State) (x : ℕ) : Prop := x ∈ (s.assocStaQueue (s.staInfo x).wrole).queue

instance (s : State) (x : ℕ) : Decidable (Live s x) := inferInstanceAs (Decidable (_ ∈ _))

/-- What happens to the station tables. -/
inductive Event
  /-- `_phl_wifi_role_alloc_sw` sets the type and the address of a role. -/
  | roleAlloc (r : ℕ) (role : WifiRole)
  /-- `rtw_phl_alloc_stainfo_sw`. -/
  | allocSw (addr : MacAddr) (r : ℕ) (ringOk : Bool)
  /-- `_phl_alloc_stainfo` with `alloc` set and `only_hw` clear. -/
  | alloc (addr : MacAddr) (r : ℕ) (ringOk hwOk : Bool)
  /-- `_phl_alloc_stainfo` with `alloc` and `only_hw` set. -/
  | allocHw (x : ℕ) (hwOk : Bool)
  /-- `rtw_phl_free_stainfo_sw`. -/
  | freeSw (x : ℕ)
  /-- `_phl_alloc_stainfo` with `alloc` and `only_hw` clear. -/
  | free (x : ℕ)
  /-- `phl_wifi_role_free_stainfo_sw`, when a role stops. -/
  | roleStop (r : ℕ)
  deriving DecidableEq, Repr

/-- One event. A caller names a station only while it is live. -/
def step (s : State) : Event → Option State
  | .roleAlloc r role => some { s with wifiRole := Function.update s.wifiRole r role }
  | .allocSw addr r ringOk => some (phlAllocStainfoSw s addr r ringOk).2
  | .alloc addr r ringOk hwOk => some (phlAllocStainfo s addr r ringOk hwOk).2.2
  | .allocHw x hwOk => if Live s x then some (phlAllocStainfoHw s x hwOk).2 else none
  | .freeSw x => if Live s x then some (phlFreeStainfoSw s x).2 else none
  | .free x => if Live s x then some (phlFreeStainfo s x).2 else none
  | .roleStop r => some (phlWifiRoleFreeStainfoSw s r)

end Rtl88x2cu.Station
