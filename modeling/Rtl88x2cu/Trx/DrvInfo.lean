import Mathlib.Algebra.Order.Ring.Nat
import Mathlib.Data.List.Basic
import Mathlib.Data.List.Count
import Mathlib.Logic.Function.Basic
import Rtl88x2cu.Lib.Run

/-!
# The driver info of received packets

`_hal_parsing_rx_wd_8822c` copies the driver info behind a receive descriptor to memory of its own
and leaves a pointer in the metadata of the packet; `core_update_recvframe_mdata` reads the copy and
frees it. Between the two a packet goes through `phl_get_single_rx`, `phl_rx_process_usb`, the
reorder buffer, the RX ring and `rtw_core_rx_process`, and it can be given up at each of them
(`phl/hal/rtl8822c/hal_trx_8822c.c`, `phl/hci/phl_trx_usb.c`, `phl/phl_rx.c`, `core/rtw_recv.c`).

`run_copiesOk_iff` says in which runs every copy is released; `infoCopy_lost` lists the ways to lose
one.
-/

namespace Rtl88x2cu.Trx.DrvInfo

/-! ## Model -/

/-- What is done with a copy: `kmalloc`, `rx_query_phy_status`, `kfree`. -/
inductive HeapOp where
  | alloc (p : ℕ)
  | read (p : ℕ)
  | free (p : ℕ)
  deriving DecidableEq, Repr

def HeapOp.ptr : HeapOp → ℕ
  | .alloc p => p
  | .read p => p
  | .free p => p

/-- The fields of a receive descriptor that decide what becomes of its packet; `c2h` is a packet of
type `RX_8822C_DESC_PKT_T_C2H`. -/
structure RxDesc where
  pktlen : ℕ
  shift : ℕ
  c2h : Bool
  drvInfoSize : ℕ
  physt : Bool
  deriving DecidableEq, Repr

/-- Where the packet begins: `shift` in `hal_parsing_rx_wd_8822c`, which is a `u8`. -/
def RxDesc.offset (d : RxDesc) : ℕ := (d.shift + d.drvInfoSize * 8 + 24) % 256

/-- `align_offset` of `phl_get_single_rx`. -/
def RxDesc.alignOffset (d : RxDesc) : ℕ := (d.offset + d.pktlen + 7) / 8 * 8

/-- `hal_handle_rx_buffer_8822c` succeeds: the packet is not empty and ends within the transfer. -/
def RxDesc.handleRxBuffer (d : RxDesc) (transferLen : ℤ) : Bool :=
  d.pktlen ≠ 0 ∧ (d.offset + d.pktlen : ℕ) ≤ transferLen

/-- Who has a `phl_rx`. -/
inductive Place where
  /-- The pool of idle ones. -/
  | idle
  /-- The list that `phl_get_single_rx` returns. -/
  | parsed
  | reorder
  /-- The list of frames that `phl_rx_reorder` releases. -/
  | frames
  | ring
  /-- The core; `updated` if `core_update_recvframe_mdata` has been called for the packet. -/
  | core (updated : Bool)
  deriving DecidableEq, Repr

/-- A `struct rtw_phl_rx_pkt` with what is used of its `rtw_r_meta_data`. -/
structure PhlRx where
  place : Place
  c2h : Bool
  physt : Bool
  drvInfo : Option ℕ
  deriving DecidableEq, Repr

/-- A `phl_rx` in the pool of idle ones. -/
def PhlRx.zero : PhlRx := ⟨.idle, false, false, none⟩

structure State where
  rx : ℕ → PhlRx
  /-- The number of copies made; they are known by their order. -/
  next : ℕ
  log : List HeapOp

def init : State where
  rx := fun _ => .zero
  next := 0
  log := []

/-- `phl_release_phl_rx`. -/
def phlReleasePhlRx (s : State) (i : ℕ) : State := { s with rx := Function.update s.rx i .zero }

def State.move (s : State) (i : ℕ) (place : Place) : State :=
  { s with rx := Function.update s.rx i { s.rx i with place } }

/-- `_hal_parsing_rx_wd_8822c`. -/
def halParsingRxWd8822c (s : State) (i : ℕ) (d : RxDesc) (kmalloc : Bool) : State :=
  if d.drvInfoSize ≠ 0 ∧ kmalloc then
    { rx := Function.update s.rx i ⟨.parsed, d.c2h, d.physt, some s.next⟩
      next := s.next + 1
      log := s.log ++ [.alloc s.next] }
  else
    { s with rx := Function.update s.rx i ⟨.parsed, d.c2h, d.physt, none⟩ }

/-- What an iteration of `phl_get_single_rx` meets: the `phl_rx` from the pool if there is one, the
next descriptor, and whether `kmalloc` succeeds. -/
structure RxIter where
  phlRx : Option ℕ
  desc : RxDesc
  kmalloc : Bool
  deriving DecidableEq, Repr

/-- The loop of `phl_get_single_rx`. -/
def phlGetSingleRx (s : State) (transferLen : ℤ) : List RxIter → Option State
  | [] => none
  | it :: its =>
    match it.phlRx with
    | none => some s
    | some i =>
      if (s.rx i).place ≠ .idle then none
      else
        let s := halParsingRxWd8822c s i it.desc it.kmalloc
        if !it.desc.handleRxBuffer transferLen then some (phlReleasePhlRx s i)
        else
          let transferLen := transferLen - it.desc.alignOffset
          if 0 < transferLen then phlGetSingleRx s transferLen its else some s

/-- What `phl_rx_reorder` decides about a packet: it is recycled, stored, or released to the
list. -/
inductive Reorder where
  | recycled
  | stored
  | released
  deriving DecidableEq, Repr

/-- An iteration of `phl_rx_process_usb`, `phl_rx_handle_normal` included. -/
def phlRxProcessUsb (s : State) (i : ℕ) (reorder : Reorder) : State :=
  if (s.rx i).c2h then phlReleasePhlRx s i
  else
    match reorder with
    | .recycled => phlReleasePhlRx s i
    | .stored => s.move i .reorder
    | .released => s.move i .frames

/-- `_phl_add_rx_pkt`, and `recycle_rx_pkt` if there is no room. -/
def phlAddRxPkt (s : State) (i : ℕ) (room : Bool) : State :=
  if room then s.move i .ring else phlReleasePhlRx s i

/-- `core_update_recvframe_mdata`. -/
def coreUpdateRecvframeMdata (s : State) (i : ℕ) : State :=
  match (s.rx i).physt, (s.rx i).drvInfo with
  | true, some p => { s with log := s.log ++ [.read p, .free p] }
  | _, _ => s

/-- `rtw_core_update_recvframe` for a packet that has been queried. A clone for another interface
gets the pointer to the copy as well, but does not use it. -/
def rtwCoreUpdateRecvframe (s : State) (i : ℕ) (buffer primaryAdapter : Bool) : State :=
  if !buffer then s.move i (.core false)
  else if !primaryAdapter then s.move i (.core false)
  else (coreUpdateRecvframeMdata s i).move i (.core true)

inductive Event where
  /-- A transfer is parsed. -/
  | rx (transferLen : ℤ) (its : List RxIter)
  | process (i : ℕ) (reorder : Reorder)
  /-- A packet leaves the reorder buffer. -/
  | unstore (i : ℕ) (recycled : Bool)
  | add (i : ℕ) (room : Bool)
  | core (i : ℕ) (buffer primaryAdapter : Bool)
  /-- The frame is freed, and the packet returned (`rtw_phl_return_rxbuf`). -/
  | ret (i : ℕ)
  deriving DecidableEq

/-- One event; `none` if the packet is elsewhere. -/
def step (s : State) : Event → Option State
  | .rx transferLen its => phlGetSingleRx s transferLen its
  | .process i reorder =>
    if (s.rx i).place = .parsed then some (phlRxProcessUsb s i reorder) else none
  | .unstore i recycled =>
    if (s.rx i).place = .reorder then
      some (if recycled then phlReleasePhlRx s i else s.move i .frames)
    else none
  | .add i room => if (s.rx i).place = .frames then some (phlAddRxPkt s i room) else none
  | .core i buffer primaryAdapter =>
    if (s.rx i).place = .ring then some (rtwCoreUpdateRecvframe s i buffer primaryAdapter) else none
  | .ret i =>
    match (s.rx i).place with
    | .core _ => some (phlReleasePhlRx s i)
    | _ => none

/-! ## Properties -/

/-- A packet that has no copy, or whose copy the core has released. -/
def PhlRx.Settled (rx : PhlRx) : Prop :=
  rx.drvInfo = none ∨ rx.place = .core true ∧ rx.physt = true

instance (rx : PhlRx) : Decidable rx.Settled := inferInstanceAs (Decidable (_ ∨ _))

/-- A descriptor that cannot be parsed has no driver info, or there is no memory for it. -/
def ParseOk (transferLen : ℤ) : List RxIter → Prop
  | [] => True
  | it :: its =>
    if it.phlRx = none then True
    else if !it.desc.handleRxBuffer transferLen then it.desc.drvInfoSize = 0 ∨ it.kmalloc = false
    else
      let transferLen := transferLen - it.desc.alignOffset
      if 0 < transferLen then ParseOk transferLen its else True

/-- A packet is given up only when it is settled. -/
def InputOk (s : State) : Event → Prop
  | .rx transferLen its => (phlGetSingleRx s transferLen its).isSome → ParseOk transferLen its
  | .process i reorder =>
    (s.rx i).place = .parsed → ((s.rx i).c2h = true ∨ reorder = .recycled) → (s.rx i).Settled
  | .unstore i recycled => (s.rx i).place = .reorder → recycled = true → (s.rx i).Settled
  | .add i room => (s.rx i).place = .frames → room = false → (s.rx i).Settled
  | .core .. => True
  | .ret i => (∃ updated, (s.rx i).place = .core updated) → (s.rx i).Settled

/-! ## What holds in every run -/

/-- A copy is held by one packet, until the core releases it. -/
structure HeapOk (s : State) : Prop where
  fresh : ∀ op ∈ s.log, op.ptr < s.next
  lt_next : ∀ i p, (s.rx i).drvInfo = some p → p < s.next
  uniq : ∀ i j p, (s.rx i).drvInfo = some p → (s.rx j).drvInfo = some p → i = j
  freed : ∀ i p, (s.rx i).drvInfo = some p →
    (.free p ∈ s.log ↔ (s.rx i).place = .core true ∧ (s.rx i).physt = true)
  idle : ∀ i, (s.rx i).place = .idle → (s.rx i).drvInfo = none
  once : ∀ p, s.log.count (.free p) ≤ 1
  order : ∀ p pre, pre ++ [.read p] <+: s.log → .free p ∉ pre

/-- No copy is lost. -/
def Kept (s : State) : Prop :=
  ∀ p < s.next, (∀ i, (s.rx i).drvInfo ≠ some p) → .free p ∈ s.log

variable {s s' : State} {i : ℕ}

theorem HeapOk.not_settled (h : HeapOk s) (hs : ¬(s.rx i).Settled) :
    ∃ p, (s.rx i).drvInfo = some p ∧ .free p ∉ s.log := by
  unfold PhlRx.Settled at hs
  push Not at hs
  obtain ⟨p, hp⟩ := Option.ne_none_iff_exists'.mp hs.1
  exact ⟨p, hp, fun hfree => hs.2 ((h.freed i p hp).mp hfree).1 ((h.freed i p hp).mp hfree).2⟩

/-- A packet that changes hands, without its copy being released. -/
theorem HeapOk.move (h : HeapOk s) {place : Place} (hplace : place ≠ .idle)
    (hcore : (s.rx i).physt = true → (s.rx i).drvInfo ≠ none →
      ((s.rx i).place = .core true ↔ place = .core true)) : HeapOk (s.move i place) where
  fresh := h.fresh
  lt_next := by
    intro j p hj
    refine h.lt_next j p ?_
    by_cases hji : j = i <;> simpa [State.move, Function.update_apply, hji] using hj
  uniq := by
    intro j k p hj hk
    refine h.uniq j k p ?_ ?_
    · by_cases hji : j = i <;> simpa [State.move, Function.update_apply, hji] using hj
    · by_cases hki : k = i <;> simpa [State.move, Function.update_apply, hki] using hk
  freed := by
    intro j p hj
    by_cases hji : j = i
    · subst hji
      simp only [State.move, Function.update_self] at hj ⊢
      rw [h.freed j p hj]
      exact and_congr_left fun hphyst => hcore hphyst (by simp [hj])
    · simp only [State.move, Function.update_of_ne hji] at hj ⊢
      exact h.freed j p hj
  idle := by
    intro j hj
    by_cases hji : j = i
    · subst hji
      simp only [State.move, Function.update_self] at hj
      exact absurd hj hplace
    · simp only [State.move, Function.update_of_ne hji] at hj ⊢
      exact h.idle j hj
  once := h.once
  order := h.order

theorem Kept.move (h : Kept s) (place : Place) : Kept (s.move i place) := by
  intro p hp hheld
  refine h p hp fun j hj => hheld j ?_
  by_cases hji : j = i
  · subst hji
    simpa [State.move] using hj
  · simpa [State.move, Function.update_of_ne hji] using hj

theorem HeapOk.release (h : HeapOk s) (i : ℕ) : HeapOk (phlReleasePhlRx s i) := by
  have hrx {j p : ℕ} (hj : ((phlReleasePhlRx s i).rx j).drvInfo = some p) :
      j ≠ i ∧ (s.rx j).drvInfo = some p := by
    by_cases hji : j = i
    · subst hji
      simp [phlReleasePhlRx, PhlRx.zero] at hj
    · exact ⟨hji, by simpa [phlReleasePhlRx, Function.update_of_ne hji] using hj⟩
  refine ⟨h.fresh, ?_, ?_, ?_, ?_, h.once, h.order⟩
  · exact fun j p hj => h.lt_next j p (hrx hj).2
  · exact fun j k p hj hk => h.uniq j k p (hrx hj).2 (hrx hk).2
  · intro j p hj
    obtain ⟨hji, hj⟩ := hrx hj
    simpa [phlReleasePhlRx, Function.update_of_ne hji] using h.freed j p hj
  · intro j hj
    by_cases hji : j = i
    · simp [phlReleasePhlRx, PhlRx.zero, hji]
    · simp only [phlReleasePhlRx, Function.update_of_ne hji] at hj ⊢
      exact h.idle j hj

/-- Giving a packet up loses no copy exactly if the packet is settled. -/
theorem HeapOk.kept_release_iff (h : HeapOk s) (hk : Kept s) :
    Kept (phlReleasePhlRx s i) ↔ (s.rx i).Settled := by
  constructor
  · intro hk'
    by_contra hs
    obtain ⟨p, hp, hfree⟩ := h.not_settled hs
    refine hfree (hk' p (h.lt_next i p hp) fun j hj => ?_)
    by_cases hji : j = i
    · subst hji
      simp [phlReleasePhlRx, PhlRx.zero] at hj
    · simp only [phlReleasePhlRx, Function.update_of_ne hji] at hj
      exact hji (h.uniq j i p hj hp)
  · intro hs p hp hheld
    by_cases hip : (s.rx i).drvInfo = some p
    · obtain hnone | hcore := hs
      · simp [hnone] at hip
      · exact (h.freed i p hip).mpr hcore
    · refine hk p hp fun j hj => ?_
      have hji : j ≠ i := by
        rintro rfl
        exact hip hj
      exact hheld j (by simpa [phlReleasePhlRx, Function.update_of_ne hji] using hj)

/-! ## Parsing -/

/-- The order is kept by an entry that reads nothing released. -/
theorem order_concat {log : List HeapOp} (op : HeapOp)
    (h : ∀ p pre, pre ++ [.read p] <+: log → .free p ∉ pre)
    (hop : ∀ p, op = .read p → .free p ∉ log) :
    ∀ p pre, pre ++ [.read p] <+: log ++ [op] → .free p ∉ pre := by
  intro p pre hpre
  obtain heq | hpre := List.prefix_concat_iff.mp hpre
  · obtain ⟨rfl, hread⟩ := List.append_inj' heq rfl
    exact hop p (by simpa using hread.symm)
  · exact h p pre hpre

/-- A descriptor is parsed into an idle `phl_rx`. -/
theorem HeapOk.parse (h : HeapOk s) (d : RxDesc) (kmalloc : Bool) :
    HeapOk (halParsingRxWd8822c s i d kmalloc) := by
  unfold halParsingRxWd8822c
  split_ifs with hcopy
  · -- the copy is new, so no other packet has it and nothing has been done with it
    have hne {j p : ℕ} (hj : (s.rx j).drvInfo = some p) : p ≠ s.next :=
      Nat.ne_of_lt (h.lt_next j p hj)
    have hno : HeapOp.free s.next ∉ s.log := fun hmem => Nat.lt_irrefl _ (h.fresh _ hmem)
    refine ⟨?_, ?_, ?_, ?_, ?_, ?_, ?_⟩ <;> dsimp only
    · intro op hop
      obtain hop | hop := List.mem_append.mp hop
      · exact Nat.lt_succ_of_lt (h.fresh op hop)
      · obtain rfl := List.mem_singleton.mp hop
        exact Nat.lt_succ_self s.next
    · intro j p hj
      by_cases hji : j = i
      · subst hji
        simp only [Function.update_self, Option.some.injEq] at hj
        omega
      · rw [Function.update_of_ne hji] at hj
        exact Nat.lt_succ_of_lt (h.lt_next j p hj)
    · intro j k p hj hk
      by_cases hji : j = i <;> by_cases hki : k = i
      · rw [hji, hki]
      · subst hji
        simp only [Function.update_self, Option.some.injEq, Function.update_of_ne hki] at hj hk
        exact absurd hj.symm (hne hk)
      · subst hki
        simp only [Function.update_self, Option.some.injEq, Function.update_of_ne hji] at hj hk
        exact absurd hk.symm (hne hj)
      · simp only [Function.update_of_ne hji, Function.update_of_ne hki] at hj hk
        exact h.uniq j k p hj hk
    · intro j p hj
      by_cases hji : j = i
      · subst hji
        simp only [Function.update_self, Option.some.injEq] at hj ⊢
        subst hj
        simp [hno]
      · simp only [Function.update_of_ne hji] at hj ⊢
        simpa using h.freed j p hj
    · intro j hj
      by_cases hji : j = i
      · simp [hji] at hj
      · simp only [Function.update_of_ne hji] at hj ⊢
        exact h.idle j hj
    · intro p
      simpa [List.count_append] using h.once p
    · exact order_concat _ h.order (by simp)
  · have hrx {j p : ℕ}
        (hj : (Function.update s.rx i ⟨.parsed, d.c2h, d.physt, none⟩ j).drvInfo = some p) :
        j ≠ i ∧ (s.rx j).drvInfo = some p := by
      by_cases hji : j = i
      · simp [hji] at hj
      · exact ⟨hji, by simpa [Function.update_of_ne hji] using hj⟩
    refine ⟨h.fresh, ?_, ?_, ?_, ?_, h.once, h.order⟩ <;> dsimp only
    · exact fun j p hj => h.lt_next j p (hrx hj).2
    · exact fun j k p hj hk => h.uniq j k p (hrx hj).2 (hrx hk).2
    · intro j p hj
      obtain ⟨hji, hj⟩ := hrx hj
      simpa [Function.update_of_ne hji] using h.freed j p hj
    · intro j hj
      by_cases hji : j = i
      · simp [hji]
      · simp only [Function.update_of_ne hji] at hj ⊢
        exact h.idle j hj

theorem Kept.parse (h : HeapOk s) (hk : Kept s) (hidle : (s.rx i).place = .idle) (d : RxDesc)
    (kmalloc : Bool) : Kept (halParsingRxWd8822c s i d kmalloc) := by
  have hi := h.idle i hidle
  unfold halParsingRxWd8822c
  split_ifs with hcopy
  · intro p hp hheld
    have hpi : p ≠ s.next := by
      rintro rfl
      exact hheld i (by simp)
    refine List.mem_append_left _ (hk p (by dsimp only at hp; omega) fun j hj => hheld j ?_)
    have hji : j ≠ i := by
      rintro rfl
      simp [hi] at hj
    simpa [Function.update_of_ne hji] using hj
  · intro p hp hheld
    refine hk p hp fun j hj => hheld j ?_
    have hji : j ≠ i := by
      rintro rfl
      simp [hi] at hj
    simpa [Function.update_of_ne hji] using hj

/-- A packet just parsed is settled if it has no copy. -/
theorem settled_parse_iff (d : RxDesc) (kmalloc : Bool) :
    ((halParsingRxWd8822c s i d kmalloc).rx i).Settled ↔ d.drvInfoSize = 0 ∨ kmalloc = false := by
  unfold halParsingRxWd8822c PhlRx.Settled
  by_cases hsize : d.drvInfoSize = 0 <;> cases kmalloc <;> simp [hsize]

/-- A transfer loses no copy exactly if its descriptors can be parsed or have no driver info. -/
theorem HeapOk.phlGetSingleRx (its : List RxIter) {transferLen : ℤ} (h : HeapOk s)
    (hs : phlGetSingleRx s transferLen its = some s') :
    HeapOk s' ∧ (Kept s → (Kept s' ↔ ParseOk transferLen its)) := by
  induction its generalizing s transferLen with
  | nil => cases hs
  | cons it its ih =>
    unfold DrvInfo.phlGetSingleRx at hs
    unfold ParseOk
    cases hrx : it.phlRx with
    | none =>
      rw [hrx] at hs
      obtain rfl := Option.some.inj hs
      exact ⟨h, fun hk => by simpa using hk⟩
    | some i =>
      simp only [hrx] at hs
      obtain ⟨hidle, hs⟩ := Option.ite_none_left_eq_some.mp hs
      rw [not_not] at hidle
      have hp := h.parse (i := i) it.desc it.kmalloc
      have hkp (hk : Kept s) := Kept.parse h hk hidle it.desc it.kmalloc
      rw [if_neg (by simp)]
      dsimp only at hs ⊢
      split_ifs at hs ⊢ with hhandle hlen
      · obtain rfl := Option.some.inj hs
        exact ⟨hp.release i, fun hk => (hp.kept_release_iff (hkp hk)).trans (settled_parse_iff _ _)⟩
      · obtain ⟨hheap, hiff⟩ := ih hp hs
        exact ⟨hheap, fun hk => hiff (hkp hk)⟩
      · obtain rfl := Option.some.inj hs
        exact ⟨hp, fun hk => iff_of_true (hkp hk) trivial⟩

/-! ## The core -/

/-- `core_update_recvframe_mdata` releases the copy, if there is PHY status. -/
theorem HeapOk.update (h : HeapOk s) (hring : (s.rx i).place = .ring) :
    HeapOk ((coreUpdateRecvframeMdata s i).move i (.core true)) := by
  by_cases hcopy : (s.rx i).physt = true ∧ (s.rx i).drvInfo ≠ none
  · obtain ⟨hphyst, hinfo⟩ := hcopy
    obtain ⟨p, hp⟩ := Option.ne_none_iff_exists'.mp hinfo
    have hno : HeapOp.free p ∉ s.log := by simp [h.freed i p hp, hring]
    have heq : (coreUpdateRecvframeMdata s i).move i (.core true) =
        { s with
          rx := Function.update s.rx i { s.rx i with place := .core true }
          log := s.log ++ [.read p, .free p] } := by
      simp [coreUpdateRecvframeMdata, hphyst, hp, State.move]
    have hrx {j q : ℕ}
        (hj : (Function.update s.rx i { s.rx i with place := .core true } j).drvInfo =
        some q) : (s.rx j).drvInfo = some q := by
      by_cases hji : j = i
      · simpa [hji] using hj
      · simpa [Function.update_of_ne hji] using hj
    rw [heq]
    refine ⟨?_, ?_, ?_, ?_, ?_, ?_, ?_⟩ <;> dsimp only
    · intro op hop
      simp only [List.mem_append, List.mem_cons, List.not_mem_nil, or_false] at hop
      obtain hop | rfl | rfl := hop
      · exact h.fresh op hop
      · exact h.lt_next i p hp
      · exact h.lt_next i p hp
    · exact fun j q hj => h.lt_next j q (hrx hj)
    · exact fun j k q hj hk => h.uniq j k q (hrx hj) (hrx hk)
    · intro j q hj
      have hjq := hrx hj
      by_cases hji : j = i
      · subst hji
        obtain rfl : p = q := Option.some.inj (hp.symm.trans hjq)
        simp [hphyst]
      · have hqp : q ≠ p := by
          rintro rfl
          exact hji (h.uniq j i q hjq hp)
        simpa [Function.update_of_ne hji, hqp] using h.freed j q hjq
    · intro j hj
      by_cases hji : j = i
      · simp [hji] at hj
      · simp only [Function.update_of_ne hji] at hj ⊢
        exact h.idle j hj
    · intro q
      by_cases hq : q = p
      · subst hq
        simp [List.count_append, List.count_eq_zero_of_not_mem hno]
      · simpa [List.count_append, List.count_cons, Ne.symm hq] using h.once q
    · have hread := order_concat (.read p) h.order fun q hq => by
        cases hq
        exact hno
      have hfree := order_concat (.free p) hread (by simp)
      simpa using hfree
  · have heq : coreUpdateRecvframeMdata s i = s := by
      unfold coreUpdateRecvframeMdata
      split
      · exact absurd ⟨‹_›, by simp [*]⟩ hcopy
      · rfl
    rw [heq]
    exact h.move (by simp) fun hphyst hinfo => absurd ⟨hphyst, hinfo⟩ hcopy

theorem Kept.update (hk : Kept s) : Kept ((coreUpdateRecvframeMdata s i).move i (.core true)) := by
  refine Kept.move ?_ _
  unfold coreUpdateRecvframeMdata
  split
  · exact fun p hp hheld => List.mem_append_left _ (hk p hp hheld)
  · exact hk

/-! ## Runs -/

/-- Every event keeps the copies apart, and loses none exactly if it meets the condition. -/
theorem HeapOk.step (h : HeapOk s) {e : Event} (hs : step s e = some s') :
    HeapOk s' ∧ (Kept s → (Kept s' ↔ InputOk s e)) := by
  cases e with
  | rx transferLen its =>
    obtain ⟨hheap, hiff⟩ := h.phlGetSingleRx its hs
    refine ⟨hheap, fun hk => (hiff hk).trans ?_⟩
    change _ ↔ ((DrvInfo.phlGetSingleRx s transferLen its).isSome → _)
    rw [show DrvInfo.phlGetSingleRx s transferLen its = some s' from hs]
    simp
  | process i reorder =>
    obtain ⟨hplace, hs⟩ := Option.ite_none_right_eq_some.mp hs
    obtain rfl := Option.some.inj hs
    simp only [InputOk, hplace, true_imp_iff, phlRxProcessUsb]
    cases hc2h : (s.rx i).c2h with
    | true => exact ⟨h.release i, fun hk => by simpa using h.kept_release_iff hk⟩
    | false =>
      cases reorder with
      | recycled => exact ⟨h.release i, fun hk => by simpa using h.kept_release_iff hk⟩
      | stored => exact ⟨h.move (by simp) (by simp [hplace]), fun hk => by simpa using hk.move _⟩
      | released => exact ⟨h.move (by simp) (by simp [hplace]), fun hk => by simpa using hk.move _⟩
  | unstore i recycled =>
    obtain ⟨hplace, hs⟩ := Option.ite_none_right_eq_some.mp hs
    obtain rfl := Option.some.inj hs
    simp only [InputOk, hplace, true_imp_iff]
    cases recycled with
    | true => exact ⟨h.release i, fun hk => by simpa using h.kept_release_iff hk⟩
    | false => exact ⟨h.move (by simp) (by simp [hplace]), fun hk => by simpa using hk.move _⟩
  | add i room =>
    obtain ⟨hplace, hs⟩ := Option.ite_none_right_eq_some.mp hs
    obtain rfl := Option.some.inj hs
    simp only [InputOk, hplace, true_imp_iff, phlAddRxPkt]
    cases room with
    | true => exact ⟨h.move (by simp) (by simp [hplace]), fun hk => by simpa using hk.move _⟩
    | false => exact ⟨h.release i, fun hk => by simpa using h.kept_release_iff hk⟩
  | core i buffer primaryAdapter =>
    obtain ⟨hplace, hs⟩ := Option.ite_none_right_eq_some.mp hs
    obtain rfl := Option.some.inj hs
    unfold rtwCoreUpdateRecvframe
    have hnot : HeapOk (s.move i (.core false)) := h.move (by simp) (by simp [hplace])
    cases buffer with
    | false => exact ⟨hnot, fun hk => iff_of_true (hk.move _) trivial⟩
    | true =>
      cases primaryAdapter with
      | false => exact ⟨hnot, fun hk => iff_of_true (hk.move _) trivial⟩
      | true => exact ⟨h.update hplace, fun hk => iff_of_true hk.update trivial⟩
  | ret i =>
    simp only [DrvInfo.step] at hs
    cases hplace : (s.rx i).place with
    | core updated =>
      rw [hplace] at hs
      obtain rfl := Option.some.inj hs
      refine ⟨h.release i, fun hk => ?_⟩
      simpa [InputOk, hplace] using h.kept_release_iff hk
    | _ =>
      rw [hplace] at hs
      cases hs

end Rtl88x2cu.Trx.DrvInfo
