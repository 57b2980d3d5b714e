import Mathlib.Algebra.Order.Ring.Nat
import Mathlib.Data.List.Induction
import Mathlib.Logic.Function.Basic
import Rtl88x2cu.Lib.Run

/-!
# Sleep queues

An access point buffers the frames for stations in power save in a sleep queue for each station, and
group-addressed frames in the queue of the broadcast station, if any station sleeps
(`core/rtw_xmit.c`). A station that wakes gets all its frames, a station that sends a trigger frame
those of its delivery-enabled access categories; a station that is released loses its frames
(`rtw_free_stainfo` in `core/rtw_sta_mgt.c`). The TIM bitmap says for which AIDs there are frames,
bit 0 being the one of the broadcast station.

`run_sleepq_ok` says what the counters, the TIM bitmap and the order of the frames are in every run.
The frames that are put in a sleep queue, and those that leave it, are recorded.
-/

namespace Rtl88x2cu.Ap.SleepQ

/-! ## Model -/

/-- A station, by its address; `rtw_get_stainfo` takes every group address for the broadcast one. -/
inductive StaId where
  | bcmc
  | peer (n : ℕ)
  deriving DecidableEq, Repr

/-- `struct xmit_frame`. -/
structure Frame where
  id : ℕ
  ra : StaId
  psta : Option StaId
  priority : ℕ
  triggered : Bool
  eosp : Bool
  deriving DecidableEq, Repr

/-- The U-APSD flags of the access categories: bit 0 for delivery, bit 1 for trigger. -/
structure Uapsd where
  bk : BitVec 8
  be : BitVec 8
  vi : BitVec 8
  vo : BitVec 8
  deriving DecidableEq, Repr

/-- The flags of the access category of a priority. -/
def Uapsd.of (u : Uapsd) : ℕ → BitVec 8
  | 1 | 2 => u.bk
  | 4 | 5 => u.vi
  | 6 | 7 => u.vo
  | _ => u.be

inductive Ac where
  | vo
  | vi
  | be
  | bk
  deriving DecidableEq, Repr

/-- `rtw_get_sta_pending`. -/
def rtwGetStaPending : ℕ → Ac
  | 1 | 2 => .bk
  | 4 | 5 => .vi
  | 6 | 7 => .vo
  | _ => .be

/-- `struct sta_info`. -/
structure Sta where
  /-- `WIFI_ASOC_STATE`. -/
  asoc : Bool
  /-- `WIFI_SLEEP_STATE`. -/
  sleep : Bool
  aid : ℕ
  uapsd : Uapsd
  hasLegacyAc : Bool
  sleepQ : List Frame
  sleepqLen : ℤ
  sleepqAcLen : ℤ
  /-- `sta_pending` of the four `tx_servq`. -/
  pending : Ac → List Frame

/-- `_rtw_init_stainfo`. -/
def initStainfo : Sta where
  asoc := false
  sleep := false
  aid := 0
  uapsd := ⟨0, 0, 0, 0⟩
  hasLegacyAc := false
  sleepQ := []
  sleepqLen := 0
  sleepqAcLen := 0
  pending := fun _ => []

/-- A frame is of a delivery-enabled access category. -/
def Sta.deliveryEnabled (x : Sta) (f : Frame) : Bool := (x.uapsd.of f.priority).getLsbD 0

/-- A record of a frame that has been put in a sleep queue. -/
structure Entry where
  sta : StaId
  frame : ℕ
  deliveryEnabled : Bool
  deriving DecidableEq, Repr

/-- How a frame leaves a sleep queue. -/
inductive Fate where
  /-- By `rtw_intf_xmitframe_enqueue`, with these flags. -/
  | handed (mdata eosp : Bool)
  /-- By `rtw_free_xmitframe_queue`. -/
  | freed
  deriving DecidableEq, Repr

def Sta.entry (x : Sta) (i : StaId) (f : Frame) : Entry := ⟨i, f.id, x.deliveryEnabled f⟩

/-- The number of AIDs is that of the MAC ids. -/
structure Cfg where
  maxAid : ℕ
  maxAid_le : maxAid ≤ 128

/-- `aid_bmp_len`. -/
def Cfg.aidBmpLen (cfg : Cfg) : ℕ :=
  ((cfg.maxAid + 1) / 8 + if (cfg.maxAid + 1) % 8 ≠ 0 then 1 else 0) % 256

structure State where
  sta : StaId → Sta
  /-- The stations that are not in `free_sta_queue`. -/
  live : StaId → Bool
  staDzBitmap : ℕ → Bool
  timBitmap : ℕ → Bool
  put : List Entry
  out : List (Entry × Fate)

def init : State where
  sta := fun _ => initStainfo
  live := fun _ => false
  staDzBitmap := fun _ => false
  timBitmap := fun _ => false
  put := []
  out := []

/-- `rtw_bmp_is_set`. -/
def rtwBmpIsSet (bmp : ℕ → Bool) (bmpLen id : ℕ) : Bool :=
  if id / 8 ≥ bmpLen then false else bmp id

/-- `rtw_bmp_set`. -/
def rtwBmpSet (bmp : ℕ → Bool) (bmpLen id : ℕ) : ℕ → Bool :=
  if id / 8 < bmpLen then Function.update bmp id true else bmp

/-- `rtw_bmp_clear`. -/
def rtwBmpClear (bmp : ℕ → Bool) (bmpLen id : ℕ) : ℕ → Bool :=
  if id / 8 < bmpLen then Function.update bmp id false else bmp

/-- `rtw_bmp_not_empty`. -/
def rtwBmpNotEmpty (bmp : ℕ → Bool) (bmpLen : ℕ) : Bool := (List.range (8 * bmpLen)).any bmp

/-- `rtw_bmp_not_empty_exclude_bit0`. -/
def rtwBmpNotEmptyExcludeBit0 (bmp : ℕ → Bool) (bmpLen : ℕ) : Bool :=
  (List.range (8 * bmpLen)).any fun i => decide (i ≠ 0) && bmp i

/-- `rtw_tim_map_is_set`; the `id` is a `u8`. -/
def rtwTimMapIsSet (cfg : Cfg) (map : ℕ → Bool) (id : ℕ) : Bool :=
  rtwBmpIsSet map cfg.aidBmpLen (id % 256)

/-- `rtw_tim_map_set`. -/
def rtwTimMapSet (cfg : Cfg) (map : ℕ → Bool) (id : ℕ) : ℕ → Bool :=
  rtwBmpSet map cfg.aidBmpLen (id % 256)

/-- `rtw_tim_map_clear`. -/
def rtwTimMapClear (cfg : Cfg) (map : ℕ → Bool) (id : ℕ) : ℕ → Bool :=
  rtwBmpClear map cfg.aidBmpLen (id % 256)

/-- `rtw_get_stainfo`. -/
def rtwGetStainfo (s : State) (ra : StaId) : Option StaId := if s.live ra then some ra else none

def State.setSta (s : State) (i : StaId) (x : Sta) : State :=
  { s with sta := Function.update s.sta i x }

/-- `rtw_list_insert_tail` into the sleep queue. -/
def State.insertTail (s : State) (i : StaId) (f : Frame) (wmmpsAc : Bool) : State :=
  let x := s.sta i
  { s.setSta i
      { x with
        sleepQ := x.sleepQ ++ [f]
        sleepqLen := x.sleepqLen + 1
        sleepqAcLen := if wmmpsAc then x.sleepqAcLen + 1 else x.sleepqAcLen } with
    put := s.put ++ [x.entry i f] }

/-- `xmitframe_enqueue_for_sleeping_sta`. -/
def xmitframeEnqueueForSleepingSta (cfg : Cfg) (s : State) (f : Frame) : State × Bool :=
  match rtwGetStainfo s f.ra with
  | none => (s, false)
  | some i =>
    let x := s.sta i
    if f.psta ≠ some i then (s, false)
    else if !x.asoc then (s, false)
    else if f.triggered then (s, false)
    else if f.ra = .bcmc then
      if rtwBmpNotEmpty s.staDzBitmap cfg.aidBmpLen then
        ({ s.insertTail i f false with
            timBitmap := rtwTimMapSet cfg s.timBitmap 0
            staDzBitmap := rtwTimMapSet cfg s.staDzBitmap 0 }, true)
      else (s, false)
    else if x.sleep && rtwTimMapIsSet cfg s.staDzBitmap x.aid then
      let wmmpsAc := (x.uapsd.of f.priority).getLsbD 0
      let s := s.insertTail i f wmmpsAc
      (if (x.hasLegacyAc && !wmmpsAc) || (!x.hasLegacyAc && wmmpsAc) then
          { s with timBitmap := rtwTimMapSet cfg s.timBitmap x.aid }
        else s, true)
    else (s, false)

def State.setPending (s : State) (i : StaId) (ac : Ac) (fs : List Frame) : State :=
  s.setSta i { s.sta i with pending := Function.update (s.sta i).pending ac fs }

/-- `rtw_xmit_classifier`. -/
def rtwXmitClassifier (s : State) (f : Frame) : State :=
  match rtwGetStainfo s f.ra with
  | none => s
  | some i =>
    let ac := rtwGetStaPending f.priority
    if f.psta = some i ∧ (s.sta i).asoc = true then
      s.setPending i ac ((s.sta i).pending ac ++ [f])
    else s

/-- The loop of `dequeue_xmitframes_to_sleeping_queue`, with the frames that stay pending. -/
def dequeueLoop (cfg : Cfg) : State → List Frame → State × List Frame
  | s, [] => (s, [])
  | s, f :: fs =>
    let f := { f with triggered := false }
    let (s, ret) := xmitframeEnqueueForSleepingSta cfg s f
    let (s, kept) := dequeueLoop cfg s fs
    (s, if ret then kept else f :: kept)

/-- `dequeue_xmitframes_to_sleeping_queue`. -/
def dequeueXmitframesToSleepingQueue (cfg : Cfg) (i : StaId) (s : State) (ac : Ac) : State :=
  let (s, kept) := dequeueLoop cfg s ((s.sta i).pending ac)
  s.setPending i ac kept

/-- `stop_sta_xmit`. -/
def stopStaXmit (cfg : Cfg) (s : State) (n : ℕ) : State :=
  let x := s.sta (.peer n)
  let s :=
    { s.setSta (.peer n) { x with sleep := true } with
      staDzBitmap := rtwTimMapSet cfg s.staDzBitmap x.aid }
  let s := [Ac.vo, .vi, .be, .bk].foldl (dequeueXmitframesToSleepingQueue cfg (.peer n)) s
  if s.live .bcmc then
    [Ac.vo, .vi, .be, .bk].foldl (dequeueXmitframesToSleepingQueue cfg .bcmc) s
  else s

/-- One round of the loop of `wakeup_sta_to_xmit` over the sleep queue of the station. -/
def Sta.wakeupFrame (x : Sta) (f : Frame) (rest : List Frame) : Sta × Fate :=
  let wmmpsAc := (x.uapsd.of f.priority).getLsbD 1
  let sleepqLen := x.sleepqLen - 1
  let sleepqAcLen := if wmmpsAc then x.sleepqAcLen - 1 else x.sleepqAcLen
  ({ x with sleepQ := rest, sleepqLen := sleepqLen, sleepqAcLen := sleepqAcLen },
    if wmmpsAc then .handed (decide (sleepqAcLen > 0)) (!decide (sleepqAcLen > 0))
    else .handed (decide (sleepqLen > 0)) f.eosp)

/-- One round of its loop over the sleep queue of the broadcast station. -/
def Sta.wakeupBmcFrame (x : Sta) (f : Frame) (rest : List Frame) : Sta × Fate :=
  let sleepqLen := x.sleepqLen - 1
  ({ x with sleepQ := rest, sleepqLen := sleepqLen }, .handed (decide (sleepqLen > 0)) f.eosp)

/-- A loop that takes out all frames of a sleep queue by `round`. -/
def Sta.wakeupLoop (round : Sta → Frame → List Frame → Sta × Fate) (i : StaId) :
    Sta → List Frame → Sta × List (Entry × Fate)
  | x, [] => (x, [])
  | x, f :: fs =>
    let (x', fate) := round x f fs
    let (x'', log) := Sta.wakeupLoop round i x' fs
    (x'', (x.entry i f, fate) :: log)

/-- The frames of `log` have left the sleep queue of a station. -/
def State.leave (s : State) (i : StaId) (x : Sta) (log : List (Entry × Fate)) : State :=
  { s.setSta i x with out := s.out ++ log }

/-- The first part of `wakeup_sta_to_xmit`, for the station itself. -/
def wakeupSta (cfg : Cfg) (s : State) (i : StaId) : State :=
  let (x, log) := Sta.wakeupLoop Sta.wakeupFrame i (s.sta i) (s.sta i).sleepQ
  if x.sleepqLen = 0 then
    { s.leave i { x with sleep := false } log with
      timBitmap := rtwTimMapClear cfg s.timBitmap x.aid
      staDzBitmap := rtwTimMapClear cfg s.staDzBitmap x.aid }
  else s.leave i x log

/-- The second part of `wakeup_sta_to_xmit`, for the broadcast station. -/
def wakeupBmc (cfg : Cfg) (s : State) : State :=
  if !s.live .bcmc then s
  else if rtwBmpNotEmptyExcludeBit0 s.staDzBitmap cfg.aidBmpLen then s
  else
    let (x, log) := Sta.wakeupLoop Sta.wakeupBmcFrame .bcmc (s.sta .bcmc) (s.sta .bcmc).sleepQ
    if x.sleepqLen = 0 then
      { s.leave .bcmc x log with
        timBitmap := rtwTimMapClear cfg s.timBitmap 0
        staDzBitmap := rtwTimMapClear cfg s.staDzBitmap 0 }
    else s.leave .bcmc x log

/-- `wakeup_sta_to_xmit`. -/
def wakeupStaToXmit (cfg : Cfg) (s : State) (n : ℕ) : State :=
  wakeupBmc cfg (wakeupSta cfg s (.peer n))

/-- One round of the loop of `xmit_delivery_enabled_frames` for a frame that it takes out. -/
def Sta.deliverFrame (x : Sta) (rest : List Frame) : Sta × Fate :=
  let sleepqAcLen := x.sleepqAcLen - 1
  ({ x with sleepQ := rest, sleepqLen := x.sleepqLen - 1, sleepqAcLen := sleepqAcLen },
    .handed (decide (sleepqAcLen > 0)) (!decide (sleepqAcLen > 0)))

/-- The loop of `xmit_delivery_enabled_frames`, `kept` being the frames before the current one; and
whether it clears the bit of the station. -/
def Sta.deliverLoop (i : StaId) (kept : List Frame) :
    Sta → List Frame → Sta × List (Entry × Fate) × Bool
  | x, [] => (x, [], false)
  | x, f :: fs =>
    if (x.uapsd.of f.priority).getLsbD 1 then
      let (x', fate) := x.deliverFrame (kept ++ fs)
      let (x'', log, cleared) := Sta.deliverLoop i kept x' fs
      (x'', (x.entry i f, fate) :: log,
        cleared || (decide (x'.sleepqAcLen = 0) && !x'.hasLegacyAc))
    else Sta.deliverLoop i (kept ++ [f]) x fs

/-- `xmit_delivery_enabled_frames`. -/
def xmitDeliveryEnabledFrames (cfg : Cfg) (s : State) (n : ℕ) : State :=
  let (x, log, cleared) := Sta.deliverLoop (.peer n) [] (s.sta (.peer n)) (s.sta (.peer n)).sleepQ
  { s.leave (.peer n) x log with
    timBitmap := if cleared then rtwTimMapClear cfg s.timBitmap x.aid else s.timBitmap }

/-- `rtw_free_stainfo`. -/
def rtwFreeStainfo (cfg : Cfg) (s : State) (i : StaId) : State :=
  let x := s.sta i
  { s.leave i { initStainfo with sleep := x.sleep }
    (x.sleepQ.map fun f => (x.entry i f, .freed)) with
    timBitmap := rtwTimMapClear cfg s.timBitmap x.aid
    staDzBitmap := rtwTimMapClear cfg s.staDzBitmap x.aid
    live := Function.update s.live i false }

/-- `rtw_ap_parse_sta_wmm_ie`, with the QoS info of the information element if there is one. -/
def rtwApParseStaWmmIe (x : Sta) : Option (BitVec 8) → Sta
  | none => { x with hasLegacyAc := true, uapsd := ⟨0, 0, 0, 0⟩ }
  | some qosInfo =>
    { x with
      hasLegacyAc := decide (qosInfo &&& 0xf ≠ 0xf)
      uapsd :=
        { vo := if qosInfo.getLsbD 0 then 3 else 0
          vi := if qosInfo.getLsbD 1 then 3 else 0
          bk := if qosInfo.getLsbD 2 then 3 else 0
          be := if qosInfo.getLsbD 3 then 3 else 0 } }

inductive Event where
  /-- `rtw_alloc_stainfo`; the broadcast station is made ready by `update_bmc_sta`. -/
  | alloc (i : StaId)
  /-- A station is associated, with the AID of `rtw_aid_alloc`. -/
  | assoc (n aid : ℕ) (qosInfo : Option (BitVec 8))
  /-- `core_tx_per_packet` asks whether to buffer a frame. -/
  | frame (f : Frame)
  /-- `rtw_xmit_classifier`. -/
  | classify (f : Frame)
  /-- `dequeue_one_xmitframe`. -/
  | dequeue (i : StaId) (ac : Ac)
  | stop (n : ℕ)
  | wakeup (n : ℕ)
  | deliver (n : ℕ)
  | release (i : StaId)
  deriving DecidableEq, Repr

/-- One call; `none` where there is no such station. -/
def step (cfg : Cfg) (s : State) : Event → Option State
  | .alloc i =>
    if s.live i then none
    else some { s.setSta i { initStainfo with asoc := decide (i = .bcmc) } with
      live := Function.update s.live i true }
  | .assoc n aid qosInfo =>
    let x := s.sta (.peer n)
    if s.live (.peer n) = true ∧ x.asoc = false ∧ 0 < aid ∧ aid ≤ cfg.maxAid then
      some (s.setSta (.peer n) { rtwApParseStaWmmIe x qosInfo with asoc := true, aid := aid })
    else none
  | .frame f => some (xmitframeEnqueueForSleepingSta cfg s f).1
  | .classify f => some (rtwXmitClassifier s f)
  | .dequeue i ac => some (s.setPending i ac ((s.sta i).pending ac).tail)
  | .stop n => if s.live (.peer n) then some (stopStaXmit cfg s n) else none
  | .wakeup n => if s.live (.peer n) then some (wakeupStaToXmit cfg s n) else none
  | .deliver n => if s.live (.peer n) then some (xmitDeliveryEnabledFrames cfg s n) else none
  | .release i => if s.live i then some (rtwFreeStainfo cfg s i) else none

/-! ## Properties -/

/-- **Assumption.** A station other than the broadcast station has an AID when it is woken or
released. -/
def AidSet (s : State) : Event → Prop
  | .wakeup n | .release (.peer n) => (s.sta (.peer n)).aid ≠ 0
  | _ => True

instance (s : State) (e : Event) : Decidable (AidSet s e) :=
  match e with
  | .wakeup _ | .release (.peer _) => inferInstanceAs (Decidable (_ ≠ _))
  | .release .bcmc | .alloc _ | .assoc .. | .frame _ | .classify _ | .dequeue .. | .stop _
  | .deliver _ => isTrue trivial

/-- The counters of a station are those of its sleep queue. -/
structure StaOk (x : Sta) : Prop where
  len : x.sleepqLen = x.sleepQ.length
  acLen : x.sleepqAcLen = x.sleepQ.countP x.deliveryEnabled
  /-- The delivery and the trigger flag of an access category are set together. -/
  flags : ∀ p, (x.uapsd.of p).getLsbD 1 = (x.uapsd.of p).getLsbD 0

/-- The records of station `i` for frames that are, or are not, delivery enabled. -/
def isOf (i : StaId) (c : Bool) (e : Entry) : Bool := decide (e.sta = i) && (e.deliveryEnabled == c)

/-- What the sleep queue of a station depends on. -/
def Sta.core (x : Sta) : Sta :=
  { x with sleep := false, hasLegacyAc := false, pending := fun _ => [] }

/-- The records of the frames in a sleep queue. -/
def Sta.queued (x : Sta) (i : StaId) (c : Bool) : List Entry :=
  (x.sleepQ.map (x.entry i)).filter (isOf i c)

/-- The frames of `log` have been taken out of the sleep queue of `x`, which has become `y`. -/
structure Taken (i : StaId) (p : Fate → Prop) (x y : Sta) (log : List (Entry × Fate)) : Prop where
  ok : StaOk y
  asoc : y.asoc = x.asoc
  aid : y.aid = x.aid
  uapsd : y.uapsd = x.uapsd
  subset : ∀ f ∈ y.sleepQ, f ∈ x.sleepQ
  ledger : ∀ c, x.queued i c = (log.map Prod.fst).filter (isOf i c) ++ y.queued i c
  sta : ∀ e ∈ log, e.1.sta = i
  fate : ∀ e ∈ log, p e.2

/-- What holds of station `i`. -/
structure StationOk (cfg : Cfg) (i : StaId) (live : Bool) (x : Sta) : Prop where
  ok : StaOk x
  /-- Frames are queued for associated stations. -/
  asoc : x.sleepQ ≠ [] → x.asoc = true
  live : x.asoc = true → live = true
  aid_le : x.aid ≤ cfg.maxAid
  peer : i ≠ .bcmc → x.asoc = true → x.aid ≠ 0
  bcmc : i = .bcmc → x.aid = 0 ∧ ∀ p, (x.uapsd.of p).getLsbD 0 = false

structure Inv (cfg : Cfg) (s : State) : Prop where
  station : ∀ i, StationOk cfg i (s.live i) (s.sta i)
  /-- The frames of a station and class that have been put in its queue have left it, in this order,
  or are there. -/
  ledger : ∀ i c, s.put.filter (isOf i c) =
    (s.out.map Prod.fst).filter (isOf i c) ++ (s.sta i).queued i c

variable {cfg : Cfg} {s s' : State} {x y : Sta} {i : StaId} {f : Frame} {fs kept : List Frame}
variable {log : List (Entry × Fate)} {p : Fate → Prop}

/-! ## One station -/

theorem Taken.refl (h : StaOk x) : Taken i p x x [] where
  ok := h
  asoc := rfl
  aid := rfl
  uapsd := rfl
  subset _ := id
  ledger _ := rfl
  sta := by simp
  fate := by simp

theorem Taken.trans {z : Sta} {log' : List (Entry × Fate)} (h : Taken i p x y log)
    (h' : Taken i p y z log') : Taken i p x z (log ++ log') where
  ok := h'.ok
  asoc := h'.asoc.trans h.asoc
  aid := h'.aid.trans h.aid
  uapsd := h'.uapsd.trans h.uapsd
  subset f hf := h.subset f (h'.subset f hf)
  ledger c := by rw [h.ledger, h'.ledger, List.map_append, List.filter_append, List.append_assoc]
  sta e he := (List.mem_append.mp he).elim (h.sta e) (h'.sta e)
  fate e he := (List.mem_append.mp he).elim (h.fate e) (h'.fate e)

/-- A frame that is put at the end of the queue. -/
theorem StaOk.insertTail (h : StaOk x) (f : Frame) :
    StaOk
      { x with
        sleepQ := x.sleepQ ++ [f]
        sleepqLen := x.sleepqLen + 1
        sleepqAcLen := if x.deliveryEnabled f then x.sleepqAcLen + 1 else x.sleepqAcLen } where
  len := by simp [h.len]
  acLen := by
    change (if _ then _ else _) = ((x.sleepQ ++ [f]).countP x.deliveryEnabled : ℤ)
    rw [List.countP_append, List.countP_singleton, h.acLen]
    split <;> simp
  flags := h.flags

/-- A frame `f` with `kept` before it and `fs` after it is taken out. The frames that it overtakes
are of the other class. -/
theorem Taken.take (h : StaOk x) (hq : x.sleepQ = kept ++ f :: fs)
    (hkept : ∀ g ∈ kept, x.deliveryEnabled g ≠ x.deliveryEnabled f) {fate : Fate}
    (hfate : p fate) :
    Taken i p x
      { x with
        sleepQ := kept ++ fs
        sleepqLen := x.sleepqLen - 1
        sleepqAcLen := if x.deliveryEnabled f then x.sleepqAcLen - 1 else x.sleepqAcLen }
      [(x.entry i f, fate)] where
  ok :=
    { len := by
        have hlen := h.len
        rw [hq] at hlen
        simp only [List.length_append, List.length_cons] at hlen ⊢
        omega
      acLen := by
        have hac := h.acLen
        rw [hq, List.countP_append, List.countP_cons] at hac
        change (if _ then _ else _) = ((kept ++ fs).countP x.deliveryEnabled : ℤ)
        rw [List.countP_append, hac]
        by_cases hf : x.deliveryEnabled f = true
        · rw [if_pos hf, if_pos hf]
          omega
        · rw [if_neg hf, if_neg hf]
          omega
      flags := h.flags }
  asoc := rfl
  aid := rfl
  uapsd := rfl
  subset g hg := by
    rw [hq]
    exact (List.mem_append.mp hg).elim (List.mem_append_left _)
      fun hg => List.mem_append_right _ (List.mem_cons_of_mem f hg)
  ledger c := by
    have hnone (hc : x.deliveryEnabled f = c) :
        (kept.map (x.entry i)).filter (isOf i c) = [] := by
      rw [List.filter_eq_nil_iff]
      intro e he
      obtain ⟨g, hg, rfl⟩ := List.mem_map.mp he
      simp [isOf, Sta.entry, ← hc, hkept g hg]
    change ((x.sleepQ).map (x.entry i)).filter (isOf i c) =
      _ ++ ((kept ++ fs).map (x.entry i)).filter (isOf i c)
    rw [hq, List.map_append, List.map_append, List.map_cons, List.filter_append, List.filter_append,
      List.filter_cons]
    by_cases hc : x.deliveryEnabled f = c
    · rw [hnone hc]
      simp [isOf, Sta.entry, hc]
    · simp [isOf, Sta.entry, hc]
  sta := by simp [Sta.entry]
  fate := by simpa using hfate

/-- A loop whose rounds take out the first frame empties the queue, in order. -/
theorem wakeupLoop_spec {round : Sta → Frame → List Frame → Sta × Fate} {q : Sta → Prop}
    (hround : ∀ x f fs, StaOk x → q x → x.sleepQ = f :: fs →
      Taken i p x (round x f fs).1 [(x.entry i f, (round x f fs).2)] ∧ q (round x f fs).1 ∧
        (round x f fs).1.sleepQ = fs)
    (h : StaOk x) (hp : q x) (hq : x.sleepQ = fs) :
    Taken i p x (Sta.wakeupLoop round i x fs).1 (Sta.wakeupLoop round i x fs).2 ∧
      (Sta.wakeupLoop round i x fs).1.sleepQ = [] ∧
      (Sta.wakeupLoop round i x fs).2.map Prod.fst = fs.map (x.entry i) := by
  induction fs generalizing x with
  | nil => exact ⟨.refl h, hq, rfl⟩
  | cons f fs ih =>
    obtain ⟨htaken, hp', hq'⟩ := hround x f fs h hp hq
    obtain ⟨hrest, hnil, hlog⟩ := ih htaken.ok hp' hq'
    refine ⟨htaken.trans hrest, hnil, ?_⟩
    rw [Sta.wakeupLoop, List.map_cons, List.map_cons, hlog]
    have hentry : (round x f fs).1.entry i = x.entry i := by
      funext g
      simp [Sta.entry, Sta.deliveryEnabled, htaken.uapsd]
    rw [hentry]

/-- `wakeup_sta_to_xmit` empties the queue of the station. -/
theorem wakeup_spec (h : StaOk x) :
    Taken i (· ≠ .freed) x (Sta.wakeupLoop Sta.wakeupFrame i x x.sleepQ).1
        (Sta.wakeupLoop Sta.wakeupFrame i x x.sleepQ).2 ∧
      (Sta.wakeupLoop Sta.wakeupFrame i x x.sleepQ).1.sleepQ = [] ∧
      (Sta.wakeupLoop Sta.wakeupFrame i x x.sleepQ).2.map Prod.fst = x.sleepQ.map (x.entry i) := by
  refine wakeupLoop_spec (q := fun _ => True) (fun y f fs hy _ hq => ?_) h trivial rfl
  have hstate : (y.wakeupFrame f fs).1 =
      { y with
        sleepQ := [] ++ fs
        sleepqLen := y.sleepqLen - 1
        sleepqAcLen := if y.deliveryEnabled f then y.sleepqAcLen - 1 else y.sleepqAcLen } := by
    rw [Sta.wakeupFrame, hy.flags]
    rfl
  refine ⟨hstate ▸ Taken.take hy hq (by simp) ?_, trivial, rfl⟩
  simp only [Sta.wakeupFrame]
  split <;> simp

/-- So does its loop for the broadcast station, which has no delivery-enabled access category. -/
theorem wakeupBmc_spec (h : StaOk x) (hflags : ∀ p, (x.uapsd.of p).getLsbD 0 = false) :
    Taken i (· ≠ .freed) x (Sta.wakeupLoop Sta.wakeupBmcFrame i x x.sleepQ).1
        (Sta.wakeupLoop Sta.wakeupBmcFrame i x x.sleepQ).2 ∧
      (Sta.wakeupLoop Sta.wakeupBmcFrame i x x.sleepQ).1.sleepQ = [] := by
  suffices hround : ∀ y f fs, StaOk y → (∀ p, (y.uapsd.of p).getLsbD 0 = false) →
      y.sleepQ = f :: fs →
      Taken i (· ≠ .freed) y (y.wakeupBmcFrame f fs).1 [(y.entry i f, (y.wakeupBmcFrame f fs).2)] ∧
        (∀ p, ((y.wakeupBmcFrame f fs).1.uapsd.of p).getLsbD 0 = false) ∧
        (y.wakeupBmcFrame f fs).1.sleepQ = fs by
    obtain ⟨htaken, hnil, -⟩ := wakeupLoop_spec hround h hflags rfl
    exact ⟨htaken, hnil⟩
  intro y f fs hy hp hq
  have hstate : (y.wakeupBmcFrame f fs).1 =
      { y with
        sleepQ := [] ++ fs
        sleepqLen := y.sleepqLen - 1
        sleepqAcLen := if y.deliveryEnabled f then y.sleepqAcLen - 1 else y.sleepqAcLen } := by
    have hde : y.deliveryEnabled f = false := hp f.priority
    simp [Sta.wakeupBmcFrame, hde]
  exact ⟨hstate ▸ Taken.take hy hq (by simp) (by simp [Sta.wakeupBmcFrame]), hp, rfl⟩

/-- `xmit_delivery_enabled_frames` takes out the delivery-enabled frames, in order. -/
theorem deliver_spec (h : StaOk x) (kept : List Frame) (hq : x.sleepQ = kept ++ fs)
    (hkept : ∀ g ∈ kept, x.deliveryEnabled g = false) :
    Taken i (· ≠ .freed) x (Sta.deliverLoop i kept x fs).1 (Sta.deliverLoop i kept x fs).2.1 ∧
      ((Sta.deliverLoop i kept x fs).2.2 = true → fs ≠ []) := by
  induction fs generalizing x kept with
  | nil => exact ⟨.refl h, by simp [Sta.deliverLoop]⟩
  | cons f fs ih =>
    refine ⟨?_, by simp⟩
    rw [Sta.deliverLoop]
    cases hf : (x.uapsd.of f.priority).getLsbD 1 with
    | false =>
      have hde : x.deliveryEnabled f = false := by rw [Sta.deliveryEnabled, ← h.flags, hf]
      refine (ih h (kept ++ [f]) (by simpa using hq) fun g hg => ?_).1
      obtain hg | hg := List.mem_append.mp hg
      · exact hkept g hg
      · rwa [List.mem_singleton.mp hg]
    | true =>
      have hde : x.deliveryEnabled f = true := by rw [Sta.deliveryEnabled, ← h.flags, hf]
      have hstate : (x.deliverFrame (kept ++ fs)).1 =
          { x with
            sleepQ := kept ++ fs
            sleepqLen := x.sleepqLen - 1
            sleepqAcLen := if x.deliveryEnabled f then x.sleepqAcLen - 1 else x.sleepqAcLen } := by
        simp [Sta.deliverFrame, hde]
      have htaken : Taken i (· ≠ .freed) x (x.deliverFrame (kept ++ fs)).1
          [(x.entry i f, (x.deliverFrame (kept ++ fs)).2)] :=
        hstate ▸ Taken.take h hq (fun g hg => by simp [hkept g hg, hde])
          (by simp [Sta.deliverFrame])
      have hrest := (ih htaken.ok kept rfl hkept).1
      exact htaken.trans hrest

/-! ## The invariant -/

/-- A step that concerns station `i`: `put` is what it puts in the queue, and `log` what leaves
it. -/
theorem Inv.change (h : Inv cfg s) (i : StaId) (put : List Entry) (log : List (Entry × Fate))
    (hsta : ∀ j ≠ i, s'.sta j = s.sta j) (hlive : ∀ j ≠ i, s'.live j = s.live j)
    (hput : s'.put = s.put ++ put) (hout : s'.out = s.out ++ log)
    (hputSta : ∀ e ∈ put, e.sta = i) (hlogSta : ∀ e ∈ log, e.1.sta = i)
    (hstation : StationOk cfg i (s'.live i) (s'.sta i))
    (hledger : ∀ c, (s.sta i).queued i c ++ put.filter (isOf i c) =
      (log.map Prod.fst).filter (isOf i c) ++ (s'.sta i).queued i c) : Inv cfg s' where
  station j := by
    by_cases hj : j = i
    · exact hj ▸ hstation
    · rw [hsta j hj, hlive j hj]
      exact h.station j
  ledger j c := by
    rw [hput, hout, List.map_append, List.filter_append, List.filter_append, h.ledger,
      List.append_assoc]
    by_cases hj : j = i
    · rw [hj, hledger, List.append_assoc]
    · have hput' : put.filter (isOf j c) = [] := by
        rw [List.filter_eq_nil_iff]
        intro e he
        simp [isOf, hputSta e he, Ne.symm hj]
      have hlog' : (log.map Prod.fst).filter (isOf j c) = [] := by
        rw [List.filter_eq_nil_iff]
        intro e he
        obtain ⟨x, hx, rfl⟩ := List.mem_map.mp he
        simp [isOf, hlogSta x hx, Ne.symm hj]
      rw [hput', hlog', hsta j hj]
      simp

/-- The bitmaps do not matter to the invariant. -/
theorem Inv.congr (h : Inv cfg s) (hsta : s'.sta = s.sta) (hlive : s'.live = s.live)
    (hput : s'.put = s.put) (hout : s'.out = s.out) : Inv cfg s' where
  station i := by
    rw [hsta, hlive]
    exact h.station i
  ledger i c := by
    rw [hput, hout, hsta]
    exact h.ledger i c

theorem StationOk.core {live : Bool} (h : StationOk cfg i live x) (hcore : y.core = x.core) :
    StationOk cfg i live y := by
  have hx : StationOk cfg i live x.core :=
    ⟨⟨h.ok.len, h.ok.acLen, h.ok.flags⟩, h.asoc, h.live, h.aid_le, h.peer, h.bcmc⟩
  rw [← hcore] at hx
  exact ⟨⟨hx.ok.len, hx.ok.acLen, hx.ok.flags⟩, hx.asoc, hx.live, hx.aid_le, hx.peer, hx.bcmc⟩

theorem queued_of_core (hcore : y.core = x.core) (c : Bool) : y.queued i c = x.queued i c := by
  rw [show y.queued i c = y.core.queued i c from rfl, hcore]
  rfl

/-- Nothing changes that the queue of a station depends on. -/
theorem Inv.setSta (h : Inv cfg s) (i : StaId) (hcore : x.core = (s.sta i).core) :
    Inv cfg (s.setSta i x) := by
  refine h.change i [] [] (fun j hj => ?_) (fun _ _ => rfl) (by simp [State.setSta])
    (by simp [State.setSta]) (by simp) (by simp) ?_ (fun c => ?_)
  · simp [State.setSta, hj]
  · rw [show (s.setSta i x).sta i = x from Function.update_self ..]
    exact (h.station i).core hcore
  · rw [show (s.setSta i x).sta i = x from Function.update_self .., queued_of_core hcore]
    simp

/-- Frames leave a queue. -/
theorem Inv.leave (h : Inv cfg s) (ht : Taken i p (s.sta i) x log) (hcore : y.core = x.core) :
    Inv cfg (s.leave i y log) := by
  have hsta : (s.leave i y log).sta i = y := Function.update_self ..
  refine h.change i [] log (fun j hj => ?_) (fun _ _ => rfl) (by simp [State.leave, State.setSta])
    rfl (by simp) ht.sta ?_ (fun c => ?_)
  · simp [State.leave, State.setSta, hj]
  · have hs := h.station i
    rw [hsta]
    refine StationOk.core ?_ hcore
    exact
      { ok := ht.ok
        asoc := fun hne => by
          obtain ⟨f, hf⟩ := List.exists_mem_of_ne_nil _ hne
          rw [ht.asoc]
          exact hs.asoc (List.ne_nil_of_mem (ht.subset f hf))
        live := ht.asoc ▸ hs.live
        aid_le := ht.aid ▸ hs.aid_le
        peer := ht.asoc ▸ ht.aid ▸ hs.peer
        bcmc := ht.aid ▸ ht.uapsd ▸ hs.bcmc }
  · rw [hsta, queued_of_core hcore, ht.ledger]
    simp

/-- A station whose queue is empty before and after. -/
theorem Inv.empty (h : Inv cfg s) (i : StaId) (hq : (s.sta i).sleepQ = [])
    (hsta : ∀ j ≠ i, s'.sta j = s.sta j) (hlive : ∀ j ≠ i, s'.live j = s.live j)
    (hput : s'.put = s.put) (hout : s'.out = s.out)
    (hstation : StationOk cfg i (s'.live i) (s'.sta i)) (hq' : (s'.sta i).sleepQ = []) :
    Inv cfg s' := by
  refine h.change i [] [] hsta hlive (by simp [hput]) (by simp [hout]) (by simp)
    (by simp) hstation (fun c => ?_)
  simp [Sta.queued, hq, hq']

/-- A frame is put in the queue. -/
theorem Inv.insertTail (h : Inv cfg s) (hasoc : (s.sta i).asoc = true) (f : Frame) :
    Inv cfg (s.insertTail i f ((s.sta i).deliveryEnabled f)) := by
  have hs := h.station i
  refine h.change i [(s.sta i).entry i f] [] (fun j hj => ?_) (fun _ _ => rfl) rfl
    (by simp [State.insertTail, State.setSta]) (by simp [Sta.entry]) (by simp) ?_ (fun c => ?_)
  · simp [State.insertTail, State.setSta, hj]
  · rw [State.insertTail, State.setSta]
    dsimp only
    rw [Function.update_self]
    exact ⟨hs.ok.insertTail f, fun _ => hasoc, hs.live, hs.aid_le, hs.peer, hs.bcmc⟩
  · rw [State.insertTail, State.setSta]
    dsimp only
    rw [Function.update_self]
    change (s.sta i).queued i c ++ _ =
      _ ++ (((s.sta i).sleepQ ++ [f]).map ((s.sta i).entry i)).filter (isOf i c)
    rw [List.map_append, List.filter_append]
    rfl

theorem staOk_init : StaOk initStainfo where
  len := rfl
  acLen := rfl
  flags p := by
    simp only [initStainfo, Uapsd.of]
    split <;> rfl

theorem inv_init (cfg : Cfg) : Inv cfg init where
  station _ :=
    { ok := staOk_init
      asoc := nofun
      live := nofun
      aid_le := Nat.zero_le _
      peer := nofun
      bcmc := fun _ => ⟨rfl, fun p => by simp only [init, initStainfo, Uapsd.of]; split <;> rfl⟩ }
  ledger _ _ := rfl

/-- What the buffering of a frame does, by what it returns. -/
theorem enqueue_cases (cfg : Cfg) (s : State) (f : Frame) :
    xmitframeEnqueueForSleepingSta cfg s f = (s, false) ∨
    ((s.sta f.ra).asoc = true ∧ f.ra = .bcmc ∧
      xmitframeEnqueueForSleepingSta cfg s f =
        ({ s.insertTail f.ra f false with
            timBitmap := rtwTimMapSet cfg s.timBitmap 0
            staDzBitmap := rtwTimMapSet cfg s.staDzBitmap 0 }, true)) ∨
    ((s.sta f.ra).asoc = true ∧ f.ra ≠ .bcmc ∧
      ∃ tim, (tim = s.timBitmap ∨ tim = rtwTimMapSet cfg s.timBitmap (s.sta f.ra).aid) ∧
        xmitframeEnqueueForSleepingSta cfg s f =
          ({ s.insertTail f.ra f ((s.sta f.ra).deliveryEnabled f) with timBitmap := tim },
            true)) := by
  rw [xmitframeEnqueueForSleepingSta, rtwGetStainfo]
  by_cases hlive : s.live f.ra = true
  · rw [if_pos hlive]
    dsimp only
    by_cases hasoc : (s.sta f.ra).asoc = true
    · split_ifs with hpsta _ htrig hra hdz hsleep hac
      · exact .inl rfl
      · exact .inl rfl
      · exact .inl rfl
      · exact .inr (.inl ⟨hasoc, hra, rfl⟩)
      · exact .inl rfl
      · exact .inr (.inr ⟨hasoc, hra, _, .inr rfl, rfl⟩)
      · exact .inr (.inr ⟨hasoc, hra, _, .inl rfl, rfl⟩)
      · exact .inl rfl
    · simp [hasoc]
  · rw [if_neg hlive]
    exact .inl rfl

theorem Inv.enqueue (h : Inv cfg s) (f : Frame) :
    Inv cfg (xmitframeEnqueueForSleepingSta cfg s f).1 := by
  obtain heq | ⟨hasoc, hra, heq⟩ | ⟨hasoc, -, tim, -, heq⟩ := enqueue_cases cfg s f
  · rwa [heq]
  · rw [heq]
    have hde : (s.sta f.ra).deliveryEnabled f = false := ((h.station f.ra).bcmc hra).2 f.priority
    have hins := h.insertTail hasoc f
    rw [hde] at hins
    exact hins.congr rfl rfl rfl rfl
  · rw [heq]
    exact (h.insertTail hasoc f).congr rfl rfl rfl rfl

/-- What the buffering of a frame and a change of the pending frames keep, `stop_sta_xmit` keeps. -/
theorem stop_induct {q : State → Prop}
    (henq : ∀ s f, q s → q (xmitframeEnqueueForSleepingSta cfg s f).1)
    (hpending : ∀ s i ac fs, q s → q (s.setPending i ac fs)) (n : ℕ)
    (hsleep : q
      { s.setSta (.peer n) { s.sta (.peer n) with sleep := true } with
        staDzBitmap := rtwTimMapSet cfg s.staDzBitmap (s.sta (.peer n)).aid }) :
    q (stopStaXmit cfg s n) := by
  have hloop (fs : List Frame) (t : State) (h : q t) : q (dequeueLoop cfg t fs).1 := by
    induction fs generalizing t with
    | nil => exact h
    | cons f fs ih => exact ih _ (henq t _ h)
  have hdequeue (i : StaId) (t : State) (ac : Ac) (h : q t) :
      q (dequeueXmitframesToSleepingQueue cfg i t ac) :=
    hpending _ i ac _ (hloop _ t h)
  have hacs (i : StaId) (acs : List Ac) (t : State) (h : q t) :
      q (acs.foldl (dequeueXmitframesToSleepingQueue cfg i) t) := by
    induction acs generalizing t with
    | nil => exact h
    | cons ac acs ih => exact ih _ (hdequeue i t ac h)
  rw [stopStaXmit]
  split
  · exact hacs .bcmc _ _ (hacs (.peer n) _ _ hsleep)
  · exact hacs (.peer n) _ _ hsleep

/-- The queue of the station that wakes is emptied, in order. -/
theorem wakeupSta_spec (h : Inv cfg s) (i : StaId) :
    ∃ x log, Taken i (· ≠ .freed) (s.sta i) x log ∧ x.sleepQ = [] ∧
      log.map Prod.fst = (s.sta i).sleepQ.map ((s.sta i).entry i) ∧
      wakeupSta cfg s i =
        { s.leave i { x with sleep := false } log with
          timBitmap := rtwTimMapClear cfg s.timBitmap x.aid
          staDzBitmap := rtwTimMapClear cfg s.staDzBitmap x.aid } := by
  obtain ⟨htaken, hnil, hlog⟩ := wakeup_spec (i := i) (h.station i).ok
  refine ⟨_, _, htaken, hnil, hlog, ?_⟩
  have hlen := htaken.ok.len
  rw [hnil] at hlen
  rw [wakeupSta]
  dsimp only
  rw [if_pos (by simpa using hlen)]

/-- The queue of the broadcast station is emptied, or left as it is. -/
theorem wakeupBmc_cases (h : Inv cfg s) :
    wakeupBmc cfg s = s ∨
      ∃ x log, Taken .bcmc (· ≠ .freed) (s.sta .bcmc) x log ∧ x.sleepQ = [] ∧
        wakeupBmc cfg s =
          { s.leave .bcmc x log with
            timBitmap := rtwTimMapClear cfg s.timBitmap 0
            staDzBitmap := rtwTimMapClear cfg s.staDzBitmap 0 } := by
  have hs := h.station .bcmc
  obtain ⟨htaken, hnil⟩ := wakeupBmc_spec (i := .bcmc) hs.ok (hs.bcmc rfl).2
  have hlen := htaken.ok.len
  rw [hnil] at hlen
  rw [wakeupBmc]
  dsimp only
  rw [if_pos (show _ = (0 : ℤ) by simpa using hlen)]
  split_ifs
  · exact .inl rfl
  · exact .inl rfl
  · exact .inr ⟨_, _, htaken, hnil, rfl⟩

theorem Inv.wakeupSta (h : Inv cfg s) (i : StaId) : Inv cfg (wakeupSta cfg s i) := by
  obtain ⟨x, log, htaken, -, -, heq⟩ := wakeupSta_spec h i
  rw [heq]
  have hleave : Inv cfg (s.leave i { x with sleep := false } log) := h.leave htaken rfl
  exact hleave.congr rfl rfl rfl rfl

theorem Inv.wakeupBmc (h : Inv cfg s) : Inv cfg (wakeupBmc cfg s) := by
  obtain heq | ⟨x, log, htaken, -, heq⟩ := wakeupBmc_cases h
  · rwa [heq]
  · rw [heq]
    exact (h.leave htaken rfl).congr rfl rfl rfl rfl

theorem Inv.deliver (h : Inv cfg s) (n : ℕ) : Inv cfg (xmitDeliveryEnabledFrames cfg s n) := by
  obtain ⟨htaken, -⟩ :=
    deliver_spec (i := .peer n) (h.station (.peer n)).ok [] rfl (by simp)
  exact (h.leave htaken rfl).congr rfl rfl rfl rfl

/-- All frames of a station that is released leave its queue. -/
theorem Taken.free (h : StaOk x) :
    Taken i (· = .freed) x { x with sleepQ := [], sleepqLen := 0, sleepqAcLen := 0 }
      (x.sleepQ.map fun f => (x.entry i f, .freed)) where
  ok := ⟨rfl, rfl, h.flags⟩
  asoc := rfl
  aid := rfl
  uapsd := rfl
  subset := by simp
  ledger c := by simp [Sta.queued, List.map_map, Function.comp_def]
  sta := by simp [Sta.entry]
  fate := by simp

theorem Inv.release (h : Inv cfg s) (i : StaId) : Inv cfg (rtwFreeStainfo cfg s i) := by
  have hfree : Inv cfg _ := h.leave (Taken.free (i := i) (h.station i).ok) rfl
  refine hfree.empty i (by simp [State.leave, State.setSta]) (fun j hj => ?_)
    (fun j hj => ?_) rfl rfl
    ?_ (by simp [rtwFreeStainfo, State.leave, State.setSta, initStainfo])
  · simp [rtwFreeStainfo, State.leave, State.setSta, hj]
  · simp [rtwFreeStainfo, State.leave, State.setSta, hj]
  · have hinit := (inv_init cfg).station i
    simp only [rtwFreeStainfo, State.leave, State.setSta, Function.update_self]
    exact hinit.core rfl

theorem Inv.sleepQ_of_not_asoc (h : Inv cfg s) (hasoc : (s.sta i).asoc = false) :
    (s.sta i).sleepQ = [] := by
  by_contra hne
  simp [(h.station i).asoc hne] at hasoc

theorem Inv.alloc (h : Inv cfg s) (hs : step cfg s (.alloc i) = some s') : Inv cfg s' := by
  obtain ⟨hlive, hs⟩ := Option.ite_none_left_eq_some.mp hs
  obtain rfl := Option.some.inj hs
  have hasoc : (s.sta i).asoc = false := by
    by_contra hne
    exact hlive ((h.station i).live (by simpa using hne))
  refine h.empty i (h.sleepQ_of_not_asoc hasoc) (fun j hj => by simp [State.setSta, hj])
    (fun j hj => by simp [hj]) rfl rfl ?_ (by simp [State.setSta, initStainfo])
  have hinit := (inv_init cfg).station i
  simp only [State.setSta, Function.update_self]
  exact
    { ok := ⟨rfl, rfl, hinit.ok.flags⟩
      asoc := nofun
      live := fun _ => rfl
      aid_le := hinit.aid_le
      peer := fun hne hasoc => absurd (by simpa using hasoc) hne
      bcmc := hinit.bcmc }

/-- The flags of an access category are both set or both clear. -/
theorem flags_parse (x : Sta) (qosInfo : Option (BitVec 8)) (p : ℕ) :
    ((rtwApParseStaWmmIe x qosInfo).uapsd.of p).getLsbD 1 =
      ((rtwApParseStaWmmIe x qosInfo).uapsd.of p).getLsbD 0 := by
  have hflag (b : Bool) : (if b then 3 else 0 : BitVec 8).getLsbD 1 =
      (if b then 3 else 0 : BitVec 8).getLsbD 0 := by
    cases b <;> rfl
  cases qosInfo with
  | none =>
    simp only [rtwApParseStaWmmIe, Uapsd.of]
    split <;> rfl
  | some q =>
    simp only [rtwApParseStaWmmIe, Uapsd.of]
    split <;> exact hflag _

theorem Inv.assoc (h : Inv cfg s) {n aid : ℕ} {qosInfo : Option (BitVec 8)}
    (hs : step cfg s (.assoc n aid qosInfo) = some s') : Inv cfg s' := by
  obtain ⟨⟨hlive, hasoc, hpos, hle⟩, hs⟩ := Option.ite_none_right_eq_some.mp hs
  obtain rfl := Option.some.inj hs
  have hnil := h.sleepQ_of_not_asoc hasoc
  have hok := (h.station (.peer n)).ok
  have hlen := hok.len
  have hac := hok.acLen
  rw [hnil] at hlen hac
  have hparse : (rtwApParseStaWmmIe (s.sta (.peer n)) qosInfo).sleepQ = [] ∧
      (rtwApParseStaWmmIe (s.sta (.peer n)) qosInfo).sleepqLen = 0 ∧
      (rtwApParseStaWmmIe (s.sta (.peer n)) qosInfo).sleepqAcLen = 0 := by
    cases qosInfo <;> exact ⟨hnil, hlen, hac⟩
  obtain ⟨hq, hl, ha⟩ := hparse
  refine h.empty (.peer n) hnil (fun j hj => by simp [State.setSta, hj]) (fun _ _ => rfl) rfl rfl ?_
    (by simpa [State.setSta] using hq)
  simp only [State.setSta, Function.update_self]
  exact
    { ok :=
        { len := by rw [hl, hq]; rfl
          acLen := by rw [ha, hq]; rfl
          flags := flags_parse _ _ }
      asoc := fun _ => rfl
      live := fun _ => hlive
      aid_le := hle
      peer := fun _ _ => Nat.pos_iff_ne_zero.mp hpos
      bcmc := nofun }

theorem Inv.classify (h : Inv cfg s) (f : Frame) : Inv cfg (rtwXmitClassifier s f) := by
  rw [rtwXmitClassifier]
  cases rtwGetStainfo s f.ra with
  | none => exact h
  | some i =>
    dsimp only
    split
    · exact h.setSta i rfl
    · exact h

theorem Inv.step {e : Event} (h : Inv cfg s) (hs : step cfg s e = some s') : Inv cfg s' := by
  cases e with
  | alloc i => exact h.alloc hs
  | assoc n aid qosInfo => exact h.assoc hs
  | frame f =>
    obtain rfl := Option.some.inj hs
    exact h.enqueue f
  | classify f =>
    obtain rfl := Option.some.inj hs
    exact h.classify f
  | dequeue i ac =>
    obtain rfl := Option.some.inj hs
    exact h.setSta i rfl
  | stop n =>
    obtain ⟨-, hs⟩ := Option.ite_none_right_eq_some.mp hs
    obtain rfl := Option.some.inj hs
    have hsleep : Inv cfg (s.setSta (.peer n) { s.sta (.peer n) with sleep := true }) :=
      h.setSta _ rfl
    exact stop_induct (fun _ f ht => ht.enqueue f) (fun _ i _ _ ht => ht.setSta i rfl) n
      (hsleep.congr rfl rfl rfl rfl)
  | wakeup n =>
    obtain ⟨-, hs⟩ := Option.ite_none_right_eq_some.mp hs
    obtain rfl := Option.some.inj hs
    exact (h.wakeupSta _).wakeupBmc
  | deliver n =>
    obtain ⟨-, hs⟩ := Option.ite_none_right_eq_some.mp hs
    obtain rfl := Option.some.inj hs
    exact h.deliver n
  | release i =>
    obtain ⟨-, hs⟩ := Option.ite_none_right_eq_some.mp hs
    obtain rfl := Option.some.inj hs
    exact h.release i

/-! ## The bit of the broadcast station -/

theorem aidBmpLen_pos (cfg : Cfg) : 0 < cfg.aidBmpLen := by
  have hle := cfg.maxAid_le
  rw [Cfg.aidBmpLen]
  split <;> omega

theorem rtwTimMapSet_zero (cfg : Cfg) (map : ℕ → Bool) : rtwTimMapSet cfg map 0 0 = true := by
  have hpos := aidBmpLen_pos cfg
  rw [rtwTimMapSet, rtwBmpSet, if_pos (by omega)]
  exact Function.update_self ..

theorem rtwTimMapClear_zero (cfg : Cfg) (map : ℕ → Bool) : rtwTimMapClear cfg map 0 0 = false := by
  have hpos := aidBmpLen_pos cfg
  rw [rtwTimMapClear, rtwBmpClear, if_pos (by omega)]
  exact Function.update_self ..

/-- The bit of a station with an AID is not the one of the broadcast station. -/
theorem rtwTimMapSet_of_ne {aid : ℕ} (hne : aid ≠ 0) (hle : aid ≤ cfg.maxAid) (map : ℕ → Bool) :
    rtwTimMapSet cfg map aid 0 = map 0 := by
  have hmax := cfg.maxAid_le
  rw [rtwTimMapSet, rtwBmpSet]
  split
  · exact Function.update_of_ne (by omega) ..
  · rfl

theorem rtwTimMapClear_of_ne {aid : ℕ} (hne : aid ≠ 0) (hle : aid ≤ cfg.maxAid)
    (map : ℕ → Bool) : rtwTimMapClear cfg map aid 0 = map 0 := by
  have hmax := cfg.maxAid_le
  rw [rtwTimMapClear, rtwBmpClear]
  split
  · exact Function.update_of_ne (by omega) ..
  · rfl

def TimOk (s : State) : Prop := s.timBitmap 0 = true ↔ (s.sta .bcmc).sleepQ ≠ []

/-- A change that concerns neither the bit nor the queue of the broadcast station. -/
theorem TimOk.congr (h : TimOk s) (htim : s'.timBitmap 0 = s.timBitmap 0)
    (hq : (s'.sta .bcmc).sleepQ = (s.sta .bcmc).sleepQ) : TimOk s' := by
  rwa [TimOk, htim, hq]

theorem timOk_of_empty (htim : s.timBitmap 0 = false) (hq : (s.sta .bcmc).sleepQ = []) :
    TimOk s := by
  simp [TimOk, htim, hq]

/-- The AID of a station that is associated. -/
theorem Inv.aid_ne_zero (h : Inv cfg s) {n : ℕ} (hasoc : (s.sta (.peer n)).asoc = true) :
    (s.sta (.peer n)).aid ≠ 0 :=
  (h.station (.peer n)).peer (by simp) hasoc

theorem TimOk.enqueue (h : TimOk s) (hinv : Inv cfg s) (f : Frame) :
    TimOk (xmitframeEnqueueForSleepingSta cfg s f).1 := by
  obtain heq | ⟨-, hra, heq⟩ | ⟨hasoc, hra, tim, htim, heq⟩ := enqueue_cases cfg s f
  · rwa [heq]
  · rw [heq, hra]
    simp [TimOk, rtwTimMapSet_zero, State.insertTail, State.setSta]
  · rw [heq]
    refine h.congr ?_ (by simp [State.insertTail, State.setSta, Ne.symm hra])
    obtain rfl | rfl := htim
    · rfl
    · have hs := hinv.station f.ra
      exact rtwTimMapSet_of_ne (hs.peer hra hasoc) hs.aid_le _

theorem TimOk.setSta (h : TimOk s) (i : StaId) (hq : x.sleepQ = (s.sta i).sleepQ) :
    TimOk (s.setSta i x) := by
  refine h.congr rfl ?_
  by_cases hi : i = .bcmc
  · simp [State.setSta, hi, hq]
  · simp [State.setSta, Ne.symm hi]

theorem TimOk.wakeupSta (h : TimOk s) (hinv : Inv cfg s) {n : ℕ}
    (haid : (s.sta (.peer n)).aid ≠ 0) : TimOk (wakeupSta cfg s (.peer n)) := by
  obtain ⟨x, log, htaken, -, -, heq⟩ := wakeupSta_spec hinv (.peer n)
  rw [heq]
  refine h.congr ?_ (by simp [State.leave, State.setSta])
  have hs := hinv.station (.peer n)
  exact rtwTimMapClear_of_ne (htaken.aid ▸ haid) (htaken.aid ▸ hs.aid_le) _

theorem TimOk.wakeupBmc (h : TimOk s) (hinv : Inv cfg s) : TimOk (wakeupBmc cfg s) := by
  obtain heq | ⟨x, log, -, hnil, heq⟩ := wakeupBmc_cases hinv
  · rwa [heq]
  · rw [heq]
    exact timOk_of_empty (rtwTimMapClear_zero cfg _)
      (by simpa [State.leave, State.setSta] using hnil)

theorem TimOk.deliver (h : TimOk s) (hinv : Inv cfg s) (n : ℕ) :
    TimOk (xmitDeliveryEnabledFrames cfg s n) := by
  have hs := hinv.station (.peer n)
  obtain ⟨htaken, hcleared⟩ := deliver_spec (i := .peer n) hs.ok [] rfl (by simp)
  refine h.congr ?_ (by simp [xmitDeliveryEnabledFrames, State.leave, State.setSta])
  rw [xmitDeliveryEnabledFrames]
  dsimp only
  split
  · next hc =>
    -- Its bit is only cleared after a frame for it, so it is associated.
    have haid := hinv.aid_ne_zero (hs.asoc (hcleared hc))
    exact rtwTimMapClear_of_ne (htaken.aid ▸ haid) (htaken.aid ▸ hs.aid_le) _
  · rfl

theorem TimOk.release (h : TimOk s) (hinv : Inv cfg s) (hok : AidSet s (.release i)) :
    TimOk (rtwFreeStainfo cfg s i) := by
  have hs := hinv.station i
  cases i with
  | bcmc =>
    refine timOk_of_empty ?_ (by simp [rtwFreeStainfo, State.leave, State.setSta, initStainfo])
    rw [rtwFreeStainfo, (hs.bcmc rfl).1]
    exact rtwTimMapClear_zero cfg _
  | peer n =>
    refine h.congr ?_ (by simp [rtwFreeStainfo, State.leave, State.setSta])
    exact rtwTimMapClear_of_ne hok hs.aid_le _

theorem TimOk.step {e : Event} (h : TimOk s) (hinv : Inv cfg s) (hok : AidSet s e)
    (hs : step cfg s e = some s') : TimOk s' := by
  cases e with
  | alloc i =>
    obtain ⟨hlive, hs⟩ := Option.ite_none_left_eq_some.mp hs
    obtain rfl := Option.some.inj hs
    refine h.congr rfl ?_
    by_cases hi : i = .bcmc
    · have hasoc : (s.sta .bcmc).asoc = false := by
        by_contra hne
        exact hlive (hi ▸ (hinv.station .bcmc).live (by simpa using hne))
      simp [State.setSta, hi, initStainfo, hinv.sleepQ_of_not_asoc hasoc]
    · simp [State.setSta, Ne.symm hi]
  | assoc n aid qosInfo =>
    obtain ⟨-, hs⟩ := Option.ite_none_right_eq_some.mp hs
    obtain rfl := Option.some.inj hs
    exact h.congr rfl (by simp [State.setSta])
  | frame f =>
    obtain rfl := Option.some.inj hs
    exact h.enqueue hinv f
  | classify f =>
    obtain rfl := Option.some.inj hs
    rw [rtwXmitClassifier]
    cases rtwGetStainfo s f.ra with
    | none => exact h
    | some i =>
      dsimp only
      split
      · exact h.setSta i rfl
      · exact h
  | dequeue i ac =>
    obtain rfl := Option.some.inj hs
    exact h.setSta i rfl
  | stop n =>
    obtain ⟨-, hs⟩ := Option.ite_none_right_eq_some.mp hs
    obtain rfl := Option.some.inj hs
    have hsleep : Inv cfg (s.setSta (.peer n) { s.sta (.peer n) with sleep := true }) :=
      hinv.setSta _ rfl
    refine (stop_induct (q := fun t => Inv cfg t ∧ TimOk t) (fun t f ht => ?_)
      (fun t i _ _ ht => ?_) n
      ⟨hsleep.congr rfl rfl rfl rfl, ?_⟩).2
    · exact ⟨ht.1.enqueue f, ht.2.enqueue ht.1 f⟩
    · exact ⟨ht.1.setSta i rfl, ht.2.setSta i rfl⟩
    · exact h.congr rfl (by simp [State.setSta])
  | wakeup n =>
    obtain ⟨-, hs⟩ := Option.ite_none_right_eq_some.mp hs
    obtain rfl := Option.some.inj hs
    exact (h.wakeupSta hinv hok).wakeupBmc (hinv.wakeupSta _)
  | deliver n =>
    obtain ⟨-, hs⟩ := Option.ite_none_right_eq_some.mp hs
    obtain rfl := Option.some.inj hs
    exact h.deliver hinv n
  | release i =>
    obtain ⟨-, hs⟩ := Option.ite_none_right_eq_some.mp hs
    obtain rfl := Option.some.inj hs
    exact h.release hinv hok

/-! ## Every run -/

theorem inv_run {es : List Event} (hrun : run (step cfg) init es = some s) : Inv cfg s := by
  have htrue : Guarded (step cfg) (fun _ _ => True) init es := guarded_of_forall (by simp) init
  exact run_preserves (Inv cfg) (fun _ _ _ h _ hs => h.step hs) (inv_init cfg) htrue hrun

end Rtl88x2cu.Ap.SleepQ
