import Mathlib.Algebra.Order.Ring.Nat
import Mathlib.Data.List.Nodup
import Mathlib.Data.List.Perm.Basic
import Mathlib.Logic.Function.Basic
import Rtl88x2cu.EthAddr
import Rtl88x2cu.Lib.Run

/-!
# The scanned queue

The results of a scan are kept in a fixed number of slots: those in use are linked into the scanned
queue, the others into the free pool (`core/rtw_scan.c`, `core/rtw_mlme.c`). A result is merged into
the first entry that is the same network, or takes a free slot, or takes the slot of the entry with
the weakest signal. Entries are given back when they are old, when the interface leaves its network
and when a join fails.

`scanned_iff` says in which runs the counter is the length of the queue and no network is in the
queue twice.
-/

namespace Rtl88x2cu.Scan

open Bytes (Byte)

/-! ## Model -/

/-- The types of `Reserved[0]`: `BSS_TYPE_UNDEF` and the types of frames. -/
inductive BssType where
  | undef
  | probReq
  | bcn
  | probRsp
  deriving DecidableEq, Repr

def BssType.toNat : BssType → ℕ
  | undef => 0
  | probReq => 1
  | bcn => 2
  | probRsp => 3

/-- The fields of `NDIS_802_11_CONFIGURATION` for the signal. -/
structure PhyInfo where
  signalStrength : ℕ
  signalQuality : ℕ
  rssi : ℤ
  deriving DecidableEq, Repr

/-- `WLAN_BSSID_EX`. The description of a frame has the fixed elements of a beacon
(`collect_bss_info`). -/
structure WlanBssidEx where
  macAddress : EthAddr
  /-- The first `SsidLength` bytes. -/
  ssid : List Byte
  reserved0 : BssType
  phyInfo : PhyInfo
  /-- The first `IELength` bytes. -/
  ies : List Byte
  fixedIes : 12 ≤ ies.length
  deriving DecidableEq

/-- `rtw_get_capability_from_ie`. -/
def WlanBssidEx.capability (b : WlanBssidEx) : BitVec 16 := b.ies.getD 11 0 ++ b.ies.getD 10 0

/-- `is_all_null`. -/
def isAllNull (bytes : List Byte) : Bool := bytes.all (· = 0)

/-- `is_same_network`, without P2P. -/
def isSameNetwork (src dst : WlanBssidEx) : Bool :=
  if src.macAddress = dst.macAddress ∧ src.capability &&& 2 = dst.capability &&& 2 ∧
      src.capability &&& 1 = dst.capability &&& 1 then
    if src.ssid.length = dst.ssid.length ∧
        (src.ssid = dst.ssid ∨ (isAllNull src.ssid ∨ isAllNull dst.ssid)) then
      true
    else
      -- the access point hides its SSID
      src.ssid.length = 0 ∨ dst.ssid.length = 0
  else false

/-- The fields of `struct wlan_network`. -/
structure WlanNetwork where
  network : WlanBssidEx
  fixed : Bool
  lastScanned : Systime
  deriving DecidableEq

/-- The states of `fw_state`, and `wpa_phase`. -/
structure FwState where
  asoc : Bool
  adhoc : Bool
  adhocMaster : Bool
  /-- `WIFI_UNDER_WPS` or `wpa_phase`. -/
  underWps : Bool
  deriving DecidableEq, Repr

/-- The fields of `struct mlme_priv`. Slots are numbers. -/
structure MlmePriv where
  freeBssPool : List ℕ
  scannedQueue : List ℕ
  net : ℕ → WlanNetwork
  numOfScanned : BitVec 32
  fwState : FwState
  curNetwork : WlanBssidEx

/-- The description of a slot that has not been used. -/
def WlanBssidEx.zero : WlanBssidEx where
  macAddress := ⟨0, 0, 0, 0, 0, 0⟩
  ssid := []
  reserved0 := .undef
  phyInfo := ⟨0, 0, 0⟩
  ies := List.replicate 12 0
  fixedIes := Nat.le_refl 12

/-- `_rtw_init_mlme_priv`, for `max_bss_cnt` slots. -/
def rtwInitMlmePriv (maxBssCnt : ℕ) : MlmePriv where
  freeBssPool := List.range maxBssCnt
  scannedQueue := []
  net := fun _ => ⟨.zero, false, 0⟩
  numOfScanned := 0
  fwState := ⟨false, false, false, false⟩
  curNetwork := .zero

/-- `_rtw_alloc_network`. -/
def rtwAllocNetwork (s : MlmePriv) (now : Systime) : Option (ℕ × MlmePriv) :=
  match s.freeBssPool with
  | [] => none
  | i :: pool =>
    some (i, { s with
      freeBssPool := pool
      net := Function.update s.net i { s.net i with fixed := false, lastScanned := now }
      numOfScanned := s.numOfScanned + 1 })

/-- The unlinking that all functions freeing a slot have in common: it is deleted from the list it
is in and put at the end of the free pool. -/
def unlink (s : MlmePriv) (i : ℕ) : MlmePriv :=
  { s with
    freeBssPool := s.freeBssPool.erase i ++ [i]
    scannedQueue := s.scannedQueue.erase i
    numOfScanned := s.numOfScanned - 1 }

/-- `_rtw_free_network_nolock`. -/
def rtwFreeNetworkNolock (s : MlmePriv) (i : ℕ) : MlmePriv :=
  if (s.net i).fixed then s else unlink s i

/-- `_rtw_free_network`. `ms` converts a system time into milliseconds. -/
def rtwFreeNetwork (ms : Systime → ℕ) (now : Systime) (isfreeall : Bool) (s : MlmePriv) (i : ℕ) :
    MlmePriv :=
  if (s.net i).fixed then s
  else
    let lifetime := if s.fwState.adhocMaster ∨ s.fwState.adhoc then 1 else 20000
    if !isfreeall ∧ ms (now - (s.net i).lastScanned) < lifetime then s else unlink s i

/-- `_rtw_free_network_queue`. -/
def rtwFreeNetworkQueue (ms : Systime → ℕ) (now : Systime) (isfreeall : Bool) (s : MlmePriv) :
    MlmePriv :=
  s.scannedQueue.foldl (rtwFreeNetwork ms now isfreeall) s

/-- `free_scanqueue`. -/
def freeScanqueue (s : MlmePriv) : MlmePriv := s.scannedQueue.foldl unlink s

/-- `_rtw_find_same_network`. -/
def rtwFindSameNetwork (s : MlmePriv) (network : WlanBssidEx) : Option ℕ :=
  s.scannedQueue.find? fun i => isSameNetwork network (s.net i).network

/-- The part of `rtw_free_assoc_resources` for the scanned queue. `asocStaCount` is
`stapriv.asoc_sta_count` once the stations are freed. -/
def rtwFreeAssocResources (s : MlmePriv) (asocStaCount : ℕ) : MlmePriv :=
  let (pwlan, s) :=
    if s.fwState.underWps then (none, s)
    else
      match rtwFindSameNetwork s s.curNetwork with
      | none => (none, s)
      | some i =>
        (some i, rtwFreeNetworkNolock
          { s with net := Function.update s.net i { s.net i with fixed := false } } i)
  if s.fwState.adhocMaster ∧ asocStaCount = 1 then
    match pwlan with
    | none => s
    | some i => rtwFreeNetworkNolock s i
  else s

/-- The signal that `rtw_update_network` leaves: that of the receiver for the connected network,
else one fifth of the sample and four fifths of the history, or the history alone if the frame was
received on another channel (a quality of 101). -/
def updateSignal (s : MlmePriv) (recvinfo : ℕ × ℕ) (dst src : WlanBssidEx) : PhyInfo :=
  let old := dst.phyInfo
  let smp := src.phyInfo
  let rssi := (smp.rssi + old.rssi * 4).tdiv 5
  if s.fwState.asoc ∧ isSameNetwork s.curNetwork src then
    ⟨recvinfo.1, recvinfo.2, if smp.signalQuality ≠ 101 then rssi else old.rssi⟩
  else if smp.signalQuality ≠ 101 then
    ⟨(smp.signalStrength + old.signalStrength * 4) / 5,
      (smp.signalQuality + old.signalQuality * 4) / 5, rssi⟩
  else old

/-- `rtw_update_network`. -/
def rtwUpdateNetwork (s : MlmePriv) (recvinfo : ℕ × ℕ) (dst src : WlanBssidEx) (updateIe : Bool) :
    WlanBssidEx :=
  { (if updateIe then src else dst) with phyInfo := updateSignal s recvinfo dst src }

/-- The loop of `update_scanned_network`: the first entry that is the same network as `target`, and
the entry with the weakest signal among those before it that are not fixed. -/
def scanLoop (s : MlmePriv) (target : WlanBssidEx) : Option ℕ → List ℕ → Option ℕ × Option ℕ
  | choice, [] => (none, choice)
  | choice, i :: is =>
    if isSameNetwork (s.net i).network target then (some i, choice)
    else if (s.net i).fixed then scanLoop s target choice is
    else
      match choice with
      | none => scanLoop s target (some i) is
      | some c =>
        if (s.net i).network.phyInfo.signalStrength < (s.net c).network.phyInfo.signalStrength then
          scanLoop s target (some i) is
        else scanLoop s target (some c) is

/-- A new description in a slot. -/
def newNetwork (target : WlanBssidEx) : WlanBssidEx :=
  { target with phyInfo :=
    { target.phyInfo with
      -- bss info not receving from the right channel
      signalQuality :=
        if target.phyInfo.signalQuality = 101 then 0 else target.phyInfo.signalQuality } }

/-- Whether an entry takes over the elements of `target`. -/
def updateIe (entry target : WlanBssidEx) : Bool :=
  target.reserved0 ≠ .probReq ∧ target.reserved0.toNat ≥ entry.reserved0.toNat

/-- `update_scanned_network`. -/
def updateScannedNetwork (s : MlmePriv) (now : Systime) (recvinfo : ℕ × ℕ) (target : WlanBssidEx) :
    Bool × MlmePriv :=
  match scanLoop s target none s.scannedQueue with
  | (none, choice) =>
    if s.freeBssPool.isEmpty then
      match choice with
      | none => (false, s)
      | some i =>
        (false, { s with net := Function.update s.net i ⟨newNetwork target, false, now⟩ })
    else
      match rtwAllocNetwork s now with
      | none => (false, s)
      | some (i, s) =>
        (false, { s with
          net := Function.update s.net i
            { s.net i with network := newNetwork target, lastScanned := now }
          scannedQueue := s.scannedQueue ++ [i] })
  | (some i, _) =>
    let entry := s.net i
    let ie := updateIe entry.network target
    (ie, { s with
      net := Function.update s.net i { entry with
        network := rtwUpdateNetwork s recvinfo entry.network target ie
        lastScanned := now } })

/-- `add_network`, with `update_current_network`. -/
def addNetwork (s : MlmePriv) (now : Systime) (recvinfo : ℕ × ℕ) (target : WlanBssidEx) :
    MlmePriv :=
  match updateScannedNetwork s now recvinfo target with
  | (false, s) => s
  | (true, s) =>
    if s.fwState.asoc ∧ isSameNetwork s.curNetwork target then
      { s with curNetwork := rtwUpdateNetwork s recvinfo s.curNetwork target true }
    else s

/-- An operation on the scanned queue, or a change made by the rest of the driver: a join marks
entries as fixed and sets the current network and the state. -/
inductive QueueOp where
  | scan (now : Systime) (recvinfo : ℕ × ℕ) (target : WlanBssidEx)
  | age (now : Systime) (isfreeall : Bool)
  | freeAssoc (asocStaCount : ℕ)
  | flush
  | join (fwState : FwState) (curNetwork : WlanBssidEx) (fixed : ℕ → Bool)

def queueStep (ms : Systime → ℕ) (s : MlmePriv) : QueueOp → Option MlmePriv
  | .scan now recvinfo target => some (addNetwork s now recvinfo target)
  | .age now isfreeall => some (rtwFreeNetworkQueue ms now isfreeall s)
  | .freeAssoc asocStaCount => some (rtwFreeAssocResources s asocStaCount)
  | .flush => some (freeScanqueue s)
  | .join fwState curNetwork fixed =>
    some { s with
      fwState := fwState
      curNetwork := curNetwork
      net := fun i => { s.net i with fixed := fixed i } }

/-! ## The invariant -/

theorem isSameNetwork_comm (a b : WlanBssidEx) : isSameNetwork a b = isSameNetwork b a := by
  simp only [isSameNetwork, @eq_comm _ a.macAddress, @eq_comm _ (a.capability &&& _),
    @eq_comm _ a.ssid.length, @eq_comm _ a.ssid, or_comm (a := isAllNull a.ssid = true),
    or_comm (a := 0 = a.ssid.length)]

/-- No entry is the same network as another one. -/
def Distinct (q : List ℕ) (net : ℕ → WlanNetwork) : Prop :=
  ∀ i ∈ q, ∀ j ∈ q, i ≠ j → isSameNetwork (net i).network (net j).network = false

/-- The slots are in the pool or in the queue, the counter is the length of the queue, and no
network is in the queue twice. -/
structure QueueInv (maxBssCnt : ℕ) (s : MlmePriv) : Prop where
  slots : (s.freeBssPool ++ s.scannedQueue).Perm (List.range maxBssCnt)
  count : s.numOfScanned = BitVec.ofNat 32 s.scannedQueue.length
  distinct : Distinct s.scannedQueue s.net

section

variable {maxBssCnt : ℕ} {s : MlmePriv} {i : ℕ}

theorem QueueInv.nodup_append (h : QueueInv maxBssCnt s) :
    (s.freeBssPool ++ s.scannedQueue).Nodup :=
  h.slots.nodup_iff.mpr List.nodup_range

theorem QueueInv.nodup (h : QueueInv maxBssCnt s) : s.scannedQueue.Nodup :=
  (List.nodup_append.mp h.nodup_append).2.1

theorem QueueInv.not_mem_pool (h : QueueInv maxBssCnt s) (hi : i ∈ s.scannedQueue) :
    i ∉ s.freeBssPool :=
  fun hpool => (List.nodup_append.mp h.nodup_append).2.2 i hpool i hi rfl

/-- What an entry is written with matters for the others only. -/
theorem distinct_update_iff {q : List ℕ} {net : ℕ → WlanNetwork} (h : Distinct q net)
    (hi : i ∈ q) (n : WlanNetwork) :
    Distinct q (Function.update net i n) ↔
      ∀ j ∈ q, j ≠ i → isSameNetwork (net j).network n.network = false := by
  constructor
  · intro h' j hj hne
    have hd := h' j hj i hi hne
    rwa [Function.update_of_ne hne, Function.update_self] at hd
  · intro hnew j hj k hk hne
    by_cases hji : j = i
    · subst hji
      rw [Function.update_self, Function.update_of_ne (Ne.symm hne), isSameNetwork_comm]
      exact hnew k hk (Ne.symm hne)
    · by_cases hki : k = i
      · subst hki
        rw [Function.update_self, Function.update_of_ne hji]
        exact hnew j hj hji
      · rw [Function.update_of_ne hji, Function.update_of_ne hki]
        exact h j hj k hk hne

theorem ofNat_succ_sub_one (n : ℕ) : BitVec.ofNat 32 (n + 1) - 1 = BitVec.ofNat 32 n := by
  rw [BitVec.ofNat_add]
  exact BitVec.add_sub_cancel _ _

/-- A slot is given back. -/
theorem QueueInv.unlink (h : QueueInv maxBssCnt s) (hi : i ∈ s.scannedQueue) :
    QueueInv maxBssCnt (unlink s i) where
  slots := by
    have hpool := List.erase_of_not_mem (h.not_mem_pool hi)
    have hmove : ([i] ++ s.scannedQueue.erase i).Perm s.scannedQueue :=
      (List.perm_cons_erase hi).symm
    simp only [Scan.unlink, hpool, List.append_assoc]
    exact (hmove.append_left _).trans h.slots
  count := by
    have hlen := List.length_erase_add_one hi
    simp only [Scan.unlink, h.count]
    rw [← hlen, ofNat_succ_sub_one]
  distinct j hj k hk hne :=
    h.distinct j (List.mem_of_mem_erase hj) k (List.mem_of_mem_erase hk) hne

/-- A slot that is not in the queue is given back once more: it stays in the pool, but it is counted
again. -/
theorem QueueInv.not_unlink (h : QueueInv maxBssCnt s) (hi : i ∉ s.scannedQueue) :
    ¬ QueueInv maxBssCnt (Scan.unlink s i) := by
  intro h'
  have hcount := h'.count
  simp only [Scan.unlink, h.count, List.erase_of_not_mem hi] at hcount
  revert hcount
  generalize BitVec.ofNat 32 s.scannedQueue.length = n
  intro hcount
  bv_omega

/-- A walk over entries of the queue that gives back some of them. -/
theorem QueueInv.foldl {f : MlmePriv → ℕ → MlmePriv}
    (hf : ∀ s i, f s i = s ∨ f s i = Scan.unlink s i) {is : List ℕ} (hnodup : is.Nodup)
    (hsub : ∀ j ∈ is, j ∈ s.scannedQueue) (h : QueueInv maxBssCnt s) :
    QueueInv maxBssCnt (is.foldl f s) := by
  induction is generalizing s with
  | nil => exact h
  | cons i is ih =>
    rw [List.nodup_cons] at hnodup
    rw [List.forall_mem_cons] at hsub
    rw [List.foldl_cons]
    obtain hs | hs := hf s i
    · rw [hs]
      exact ih hnodup.2 hsub.2 h
    · rw [hs]
      refine ih hnodup.2 (fun j hj => ?_) (h.unlink hsub.1)
      have hne : j ≠ i := fun hji => hnodup.1 (hji ▸ hj)
      exact (List.mem_erase_of_ne hne).mpr (hsub.2 j hj)

/-- An entry for which the walk does nothing is left alone. -/
theorem foldl_keeps {f : MlmePriv → ℕ → MlmePriv}
    (hf : ∀ s i, f s i = s ∨ f s i = Scan.unlink s i) (is : List ℕ)
    (hkeep : ∀ t, t.net = s.net → f t i = t) (hi : i ∈ s.scannedQueue) :
    i ∈ (is.foldl f s).scannedQueue ∧ (is.foldl f s).net = s.net := by
  induction is generalizing s with
  | nil => exact ⟨hi, rfl⟩
  | cons j is ih =>
    rw [List.foldl_cons]
    have hnet : (f s j).net = s.net := by
      obtain hs | hs := hf s j
      · rw [hs]
      · rw [hs]
        rfl
    have hmem : i ∈ (f s j).scannedQueue := by
      by_cases hji : j = i
      · rw [hji, hkeep s rfl]
        exact hi
      · obtain hs | hs := hf s j
        · rwa [hs]
        · rw [hs]
          exact (List.mem_erase_of_ne (Ne.symm hji)).mpr hi
    obtain ⟨hmem', hnet'⟩ := ih (fun t ht => hkeep t (ht.trans hnet)) hmem
    exact ⟨hmem', hnet'.trans hnet⟩

theorem rtwFreeNetwork_cases (ms : Systime → ℕ) (now : Systime) (isfreeall : Bool) (s : MlmePriv)
    (i : ℕ) : rtwFreeNetwork ms now isfreeall s i = s ∨
      rtwFreeNetwork ms now isfreeall s i = Scan.unlink s i := by
  unfold rtwFreeNetwork
  grind

/-! ## Steps -/

theorem scanLoop_fst (s : MlmePriv) (target : WlanBssidEx) (choice : Option ℕ) (is : List ℕ) :
    (scanLoop s target choice is).1 =
      is.find? fun i => isSameNetwork (s.net i).network target := by
  induction is generalizing choice with
  | nil => rfl
  | cons i is ih =>
    unfold scanLoop
    grind

/-- An entry that is given up is not fixed. -/
theorem scanLoop_snd {target : WlanBssidEx} {choice : Option ℕ} {is : List ℕ} {c : ℕ}
    (h : (scanLoop s target choice is).2 = some c) :
    choice = some c ∨ (c ∈ is ∧ (s.net c).fixed = false) := by
  induction is generalizing choice with
  | nil => exact .inl h
  | cons i is ih =>
    unfold scanLoop at h
    grind

theorem isSameNetwork_rtwUpdateNetwork (recvinfo : ℕ × ℕ) (b dst src : WlanBssidEx) (ie : Bool) :
    isSameNetwork b (rtwUpdateNetwork s recvinfo dst src ie) =
      isSameNetwork b (if ie then src else dst) := rfl

/-- The condition on a scan result: the entry that takes over its elements, if there is one, is the
only one that is the same network. -/
def ScanOk (s : MlmePriv) (target : WlanBssidEx) : Prop :=
  ∀ i, (s.scannedQueue.find? fun i => isSameNetwork (s.net i).network target) = some i →
    updateIe (s.net i).network target = true →
      ∀ j ∈ s.scannedQueue, j ≠ i → isSameNetwork (s.net j).network target = false

/-- A slot is taken from the pool. -/
theorem QueueInv.insert (h : QueueInv maxBssCnt s) {pool : List ℕ} {net : ℕ → WlanNetwork}
    (hpool : s.freeBssPool = i :: pool) (hnet : ∀ j, j ≠ i → net j = s.net j)
    (hnew : ∀ j ∈ s.scannedQueue, isSameNetwork (s.net j).network (net i).network = false) :
    QueueInv maxBssCnt { s with
      freeBssPool := pool
      scannedQueue := s.scannedQueue ++ [i]
      numOfScanned := s.numOfScanned + 1
      net := net } where
  slots := by
    refine List.Perm.trans ?_ h.slots
    rw [hpool, ← List.append_assoc]
    exact List.perm_append_comm.trans (List.Perm.refl _)
  count := by
    simp only [h.count, List.length_append, List.length_singleton, BitVec.ofNat_add]
    rfl
  distinct j hj k hk hne := by
    have hi : i ∉ s.scannedQueue := by
      intro hmem
      exact h.not_mem_pool hmem (hpool ▸ List.mem_cons_self)
    rw [List.mem_append, List.mem_singleton] at hj hk
    change isSameNetwork (net j).network (net k).network = false
    obtain hj | rfl := hj
    · have hji : j ≠ i := fun hji => hi (hji ▸ hj)
      obtain hk | rfl := hk
      · have hki : k ≠ i := fun hki => hi (hki ▸ hk)
        rw [hnet j hji, hnet k hki]
        exact h.distinct j hj k hk hne
      · rw [hnet j hji]
        exact hnew j hj
    · obtain hk | rfl := hk
      · have hki : k ≠ j := fun hki => hi (hki ▸ hk)
        rw [hnet k hki, isSameNetwork_comm]
        exact hnew k hk
      · exact absurd rfl hne

theorem queueInv_update_iff (h : QueueInv maxBssCnt s) (hi : i ∈ s.scannedQueue)
    (n : WlanNetwork) :
    QueueInv maxBssCnt { s with net := Function.update s.net i n } ↔
      ∀ j ∈ s.scannedQueue, j ≠ i → isSameNetwork (s.net j).network n.network = false := by
  rw [← distinct_update_iff h.distinct hi]
  exact ⟨fun h' => h'.distinct, fun h' => ⟨h.slots, h.count, h'⟩⟩

/-- A scan result keeps the invariant if and only if it meets the condition. -/
theorem updateScannedNetwork_inv_iff (h : QueueInv maxBssCnt s) (now : Systime) (recvinfo : ℕ × ℕ)
    (target : WlanBssidEx) :
    QueueInv maxBssCnt (updateScannedNetwork s now recvinfo target).2 ↔ ScanOk s target := by
  have hfind := scanLoop_fst s target none s.scannedQueue
  unfold updateScannedNetwork ScanOk
  rw [← hfind]
  cases hloop : scanLoop s target none s.scannedQueue with
  | mk found choice =>
    rw [hloop] at hfind
    cases found with
    | none =>
      -- no entry is the same network, so `target` goes into a slot of its own
      have hnone : ∀ j ∈ s.scannedQueue, isSameNetwork (s.net j).network target = false := by
        simpa using List.find?_eq_none.mp hfind.symm
      refine iff_of_true ?_ (by simp)
      cases hpool : s.freeBssPool with
      | nil =>
        cases choice with
        | none => simpa [hpool] using h
        | some c =>
          obtain hc | ⟨hc, -⟩ := scanLoop_snd (congrArg Prod.snd hloop)
          · cases hc
          · have hnew := (queueInv_update_iff h hc ⟨newNetwork target, false, now⟩).mpr
              fun j hj _ => hnone j hj
            simpa [hpool] using hnew
      | cons i pool =>
        simp only [rtwAllocNetwork, hpool, List.isEmpty_cons, Bool.false_eq_true, if_false]
        refine h.insert hpool (fun j hj => ?_) fun j hj => ?_
        · simp [Function.update_of_ne hj]
        · rw [Function.update_self]
          exact hnone j hj
    | some i =>
      have hi : i ∈ s.scannedQueue := List.mem_of_find?_eq_some hfind.symm
      simp only [Option.some.injEq, forall_eq', queueInv_update_iff h hi,
        isSameNetwork_rtwUpdateNetwork]
      cases hie : updateIe (s.net i).network target with
      | true => simp
      | false =>
        -- the entry keeps its elements
        exact iff_of_true (fun j hj hne => h.distinct j hj i hi hne) (by simp)

/-- The current network is not part of the invariant. -/
theorem addNetwork_inv_iff (h : QueueInv maxBssCnt s) (now : Systime) (recvinfo : ℕ × ℕ)
    (target : WlanBssidEx) :
    QueueInv maxBssCnt (addNetwork s now recvinfo target) ↔ ScanOk s target := by
  rw [← updateScannedNetwork_inv_iff h now recvinfo target]
  unfold addNetwork
  split
  · next t ht => rw [ht]
  · next t ht =>
    rw [ht]
    split
    · exact ⟨fun h' => ⟨h'.slots, h'.count, h'.distinct⟩,
        fun h' => ⟨h'.slots, h'.count, h'.distinct⟩⟩
    · rfl

/-- The condition on a release of the association resources: the entry of the network is not given
back a second time. -/
def FreeAssocOk (s : MlmePriv) (asocStaCount : ℕ) : Prop :=
  ¬ (s.fwState.underWps = false ∧ s.fwState.adhocMaster = true ∧ asocStaCount = 1 ∧
    ∃ i ∈ s.scannedQueue, isSameNetwork s.curNetwork (s.net i).network = true)

theorem rtwFreeAssocResources_inv_iff (h : QueueInv maxBssCnt s) (asocStaCount : ℕ) :
    QueueInv maxBssCnt (rtwFreeAssocResources s asocStaCount) ↔ FreeAssocOk s asocStaCount := by
  unfold rtwFreeAssocResources FreeAssocOk
  cases hwps : s.fwState.underWps with
  | true => simp [h]
  | false =>
    cases hfind : rtwFindSameNetwork s s.curNetwork with
    | none =>
      have hnone := List.find?_eq_none.mp hfind
      refine iff_of_true (by simpa using h) ?_
      rintro ⟨-, -, -, i, hi, hsame⟩
      exact hnone i hi hsame
    | some i =>
      have hi : i ∈ s.scannedQueue := List.mem_of_find?_eq_some hfind
      have hsame := List.find?_some hfind
      -- the first time
      have hfixed : QueueInv maxBssCnt
          { s with net := Function.update s.net i { s.net i with fixed := false } } :=
        (queueInv_update_iff h hi _).mpr fun j hj hne => h.distinct j hj i hi hne
      have hfirst := hfixed.unlink hi
      by_cases hagain : s.fwState.adhocMaster = true ∧ asocStaCount = 1
      · refine iff_of_false ?_ fun hok => hok ⟨rfl, hagain.1, hagain.2, i, hi, hsame⟩
        have hgone : i ∉ s.scannedQueue.erase i := fun hmem =>
          (h.nodup.mem_erase_iff.mp hmem).1 rfl
        have hsecond := hfirst.not_unlink hgone
        simpa [rtwFreeNetworkNolock, Scan.unlink, hagain] using hsecond
      · refine iff_of_true ?_ fun hok => hagain ⟨hok.2.1, hok.2.2.1⟩
        simpa [rtwFreeNetworkNolock, Scan.unlink, hagain] using hfirst

end

/-! ## Runs -/

/-- A fixed entry of the queue is not aged out, and only the same network writes over it. -/
def FixedKept (ms : Systime → ℕ) (s : MlmePriv) : QueueOp → Prop
  | .scan now recvinfo target =>
    ∀ i ∈ s.scannedQueue, (s.net i).fixed →
      i ∈ (addNetwork s now recvinfo target).scannedQueue ∧
        ((addNetwork s now recvinfo target).net i).fixed ∧
        (((addNetwork s now recvinfo target).net i).network = (s.net i).network ∨
          isSameNetwork (s.net i).network target)
  | .age now isfreeall =>
    ∀ i ∈ s.scannedQueue, (s.net i).fixed →
      i ∈ (rtwFreeNetworkQueue ms now isfreeall s).scannedQueue ∧
        (rtwFreeNetworkQueue ms now isfreeall s).net i = s.net i
  | _ => True

/-- The condition on an operation. -/
def QueueOk (s : MlmePriv) : QueueOp → Prop
  | .scan _ _ target => ScanOk s target
  | .freeAssoc asocStaCount => FreeAssocOk s asocStaCount
  | _ => True

section

variable {maxBssCnt : ℕ} {s : MlmePriv} {ms : Systime → ℕ}

theorem addNetwork_scannedQueue (s : MlmePriv) (now : Systime) (recvinfo : ℕ × ℕ)
    (target : WlanBssidEx) :
    (addNetwork s now recvinfo target).scannedQueue =
        (updateScannedNetwork s now recvinfo target).2.scannedQueue ∧
      (addNetwork s now recvinfo target).net =
        (updateScannedNetwork s now recvinfo target).2.net := by
  unfold addNetwork
  split
  · next t ht => rw [ht]; exact ⟨rfl, rfl⟩
  · next t ht =>
    rw [ht]
    split <;> exact ⟨rfl, rfl⟩

theorem scan_fixedKept (h : QueueInv maxBssCnt s) (now : Systime) (recvinfo : ℕ × ℕ)
    (target : WlanBssidEx) : FixedKept ms s (.scan now recvinfo target) := by
  intro i hi hfixed
  obtain ⟨hqueue, hnet⟩ := addNetwork_scannedQueue s now recvinfo target
  rw [hqueue, hnet]
  unfold updateScannedNetwork
  cases hloop : scanLoop s target none s.scannedQueue with
  | mk found choice =>
    cases found with
    | none =>
      cases hpool : s.freeBssPool with
      | nil =>
        cases choice with
        | none => simpa using ⟨hi, hfixed⟩
        | some c =>
          -- the entry given up is not fixed
          have hc : (s.net c).fixed = false := by
            obtain hc | ⟨-, hc⟩ := scanLoop_snd (congrArg Prod.snd hloop)
            · cases hc
            · exact hc
          have hne : i ≠ c := by
            rintro rfl
            rw [hfixed] at hc
            cases hc
          simpa [Function.update_of_ne hne] using ⟨hi, hfixed⟩
      | cons c pool =>
        have hne : i ≠ c := by
          rintro rfl
          exact h.not_mem_pool hi (hpool ▸ List.mem_cons_self)
        simpa [rtwAllocNetwork, hpool, Function.update_of_ne hne] using ⟨.inl hi, hfixed⟩
    | some c =>
      by_cases hic : i = c
      · subst hic
        have hfind := scanLoop_fst s target none s.scannedQueue
        rw [hloop] at hfind
        have hsame := List.find?_some hfind.symm
        simpa [hsame] using ⟨hi, hfixed⟩
      · simpa [Function.update_of_ne hic] using ⟨hi, hfixed⟩

theorem age_fixedKept (now : Systime) (isfreeall : Bool) :
    FixedKept ms s (.age now isfreeall) := by
  intro i hi hfixed
  obtain ⟨hmem, hnet⟩ := foldl_keeps (rtwFreeNetwork_cases ms now isfreeall) s.scannedQueue
    (fun t ht => by rw [rtwFreeNetwork, ht, if_pos hfixed]) hi
  exact ⟨hmem, congrFun hnet i⟩

/-- Fixed entries are kept by every operation. -/
theorem fixedKept (h : QueueInv maxBssCnt s) (op : QueueOp) : FixedKept ms s op := by
  cases op with
  | scan now recvinfo target => exact scan_fixedKept h now recvinfo target
  | age now isfreeall => exact age_fixedKept now isfreeall
  | freeAssoc asocStaCount => trivial
  | flush => trivial
  | join fwState curNetwork fixed => trivial

theorem queueStep_inv_iff {t : MlmePriv} {op : QueueOp} (h : QueueInv maxBssCnt s)
    (hstep : queueStep ms s op = some t) : QueueInv maxBssCnt t ↔ QueueOk s op := by
  cases op with
  | scan now recvinfo target =>
    obtain rfl := Option.some.inj hstep
    exact addNetwork_inv_iff h now recvinfo target
  | age now isfreeall =>
    obtain rfl := Option.some.inj hstep
    refine iff_of_true ?_ trivial
    exact h.foldl (rtwFreeNetwork_cases ms now isfreeall) h.nodup fun _ hj => hj
  | freeAssoc asocStaCount =>
    obtain rfl := Option.some.inj hstep
    exact rtwFreeAssocResources_inv_iff h asocStaCount
  | flush =>
    obtain rfl := Option.some.inj hstep
    refine iff_of_true ?_ trivial
    exact h.foldl (fun _ _ => .inr rfl) h.nodup fun _ hj => hj
  | join fwState curNetwork fixed =>
    obtain rfl := Option.some.inj hstep
    exact iff_of_true ⟨h.slots, h.count, h.distinct⟩ trivial

theorem rtwInitMlmePriv_inv (maxBssCnt : ℕ) : QueueInv maxBssCnt (rtwInitMlmePriv maxBssCnt) where
  slots := by simp [rtwInitMlmePriv]
  count := rfl
  distinct _ hi := by cases hi

end

/-- In every state of a run the slots are partitioned, the counter is right and no network is in the
queue twice, and every operation leaves the fixed entries alone. -/
def QueueKept (maxBssCnt : ℕ) (ms : Systime → ℕ) (ops : List QueueOp) : Prop :=
  ∀ pre t, pre <+: ops → run (queueStep ms) (rtwInitMlmePriv maxBssCnt) pre = some t →
    QueueInv maxBssCnt t ∧ ∀ op, pre ++ [op] <+: ops → FixedKept ms t op

/-- This is so in exactly the runs whose scan results are written over the only entry that is the
same network, and in which no entry is given back twice. -/
theorem scanned_iff (maxBssCnt : ℕ) (ms : Systime → ℕ) (ops : List QueueOp) :
    QueueKept maxBssCnt ms ops ↔
      Guarded (queueStep ms) QueueOk (rtwInitMlmePriv maxBssCnt) ops := by
  rw [← run_inv_iff_guarded (QueueInv maxBssCnt) (fun s op h => by cases op <;> cases h)
    (fun s op t h hstep => queueStep_inv_iff h hstep) ops (rtwInitMlmePriv_inv maxBssCnt)]
  constructor
  · exact fun h pre t hpre ht => (h pre t hpre ht).1
  · intro h pre t hpre ht
    have hinv := h pre t hpre ht
    exact ⟨hinv, fun op _ => fixedKept hinv op⟩

/-- A description with the SSID `ssid` of an access point. -/
def describe (ssid : List Byte) (type : BssType) : WlanBssidEx where
  macAddress := ⟨0x00, 0xe0, 0x4c, 0x55, 0x50, 0x01⟩
  ssid := ssid
  reserved0 := type
  phyInfo := ⟨60, 60, -50⟩
  ies := List.replicate 10 0 ++ [1, 0]
  fixedIes := by decide

/-- The beacon without an SSID, after two SSIDs of one access point, takes over the first entry, and
the queue holds the access point twice. The network of an ad-hoc master that is left by its last
station is given back twice, and counted twice. -/
theorem hiddenSsid_not_kept :
    ¬ QueueKept 128 (fun t => t.toNat)
        [.scan 0 (0, 0) (describe [1] .bcn), .scan 1 (0, 0) (describe [2] .bcn),
          .scan 2 (0, 0) (describe [] .bcn)] ∧
      ¬ QueueKept 128 (fun t => t.toNat)
        [.scan 0 (0, 0) (describe [1] .bcn),
          .join ⟨false, false, true, false⟩ (describe [1] .bcn) (fun _ => false),
            .freeAssoc 1] := by
  refine ⟨fun h => ?_, fun h => ?_⟩
  · have hinv := (h _ _ (List.prefix_refl _) rfl).1
    exact absurd (hinv.distinct 0 (by decide) 1 (by decide) (by decide)) (by decide)
  · have hinv := (h _ _ (List.prefix_refl _) rfl).1
    exact absurd hinv.count (by decide)

end Rtl88x2cu.Scan
