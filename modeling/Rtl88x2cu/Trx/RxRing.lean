import Rtl88x2cu.Lib.Run
import Rtl88x2cu.Trx.RingIndex

/-!
# The RX ring between PHL and the core

`_phl_add_rx_pkt` puts received packets into `phl_rx_ring` and `rtw_phl_query_rx_pkt` takes them
out (`phl/phl_rx.c`). The two run on different threads and share the indices `phl_idx` and
`core_idx` and the entries; callers of the first are serialised by `rx_ring_lock`, the second
takes no lock. The model splits each function at every access to shared memory and lets the
pieces interleave freely.

Packets are a type parameter `π`. The fields `accepted`, `received` and `returned` of a state
record what the calls have done so far.
-/

namespace Rtl88x2cu.Trx.RxRing

variable {π : Type}

/-! ## Model -/

/-- `struct rtw_phl_rx_ring`. -/
structure PhlRxRing (π : Type) where
  entry : ℕ → Option π
  phlIdx : ℕ
  coreIdx : ℕ

/-- How far the running call of `_phl_add_rx_pkt` is. -/
inductive AddPc (π : Type) where
  | idle
  /-- `phl_idx` has been read into `wptr`. -/
  | readPhlIdx (recvpkt : π) (wptr : ℕ)
  /-- There is room, and `wptr` has been moved on. -/
  | decided (recvpkt : π) (wptr : ℕ)
  /-- `entry[wptr]` has been written. -/
  | written (recvpkt : π) (wptr : ℕ)

/-- How far the running call of `rtw_phl_query_rx_pkt` is. -/
inductive QueryPc (π : Type) where
  | idle
  /-- `phl_idx` has been read into `wptr`. -/
  | readPhlIdx (wptr : ℕ)
  /-- A packet is available, and `rptr` has been moved on. -/
  | decided (rptr : ℕ)
  /-- `entry[rptr]` has been read. -/
  | taken (rptr : ℕ) (recvpkt : Option π)
  /-- `entry[rptr]` has been set to `NULL`. -/
  | cleared (rptr : ℕ) (recvpkt : Option π)

structure State (π : Type) where
  ring : PhlRxRing π
  add : AddPc π
  query : QueryPc π
  /-- The packets put into the ring. -/
  accepted : List π
  /-- What the queries that found a packet returned to the core. -/
  received : List (Option π)
  /-- What the finished calls of `_phl_add_rx_pkt` returned. -/
  returned : List (π × RtwPhlStatus)

/-- The zeroed ring of a new `phl_info`. -/
def init (π : Type) : State π where
  ring := { entry := fun _ => none, phlIdx := 0, coreIdx := 0 }
  add := .idle
  query := .idle
  accepted := []
  received := []
  returned := []

/-- One piece of `_phl_add_rx_pkt`. A call that stored its packet returns
`RTW_PHL_STATUS_FAILURE`, since `PHL_RX_BATCH_IND` is defined nowhere; its caller only looks for
`RTW_PHL_STATUS_RESOURCE`. -/
def addStep (s : State π) : Option (State π) :=
  match s.add with
  | .idle => none
  | .readPhlIdx recvpkt wptr =>
    if phlCalcAvailWptr (toU16 s.ring.coreIdx) wptr maxPhlRingEntryNum ≤ 0 then
      some { s with add := .idle, returned := s.returned ++ [(recvpkt, .resource)] }
    else
      some { s with add := .decided recvpkt (nextPtr wptr) }
  | .decided recvpkt wptr =>
    some { s with
      ring.entry := Function.update s.ring.entry wptr (some recvpkt)
      add := .written recvpkt wptr }
  | .written recvpkt wptr =>
    some { s with
      ring.phlIdx := if wptr ≠ 0 then s.ring.phlIdx + 1 else 0
      add := .idle
      accepted := s.accepted ++ [recvpkt]
      returned := s.returned ++ [(recvpkt, .failure)] }

/-- One piece of `rtw_phl_query_rx_pkt`. -/
def queryStep (s : State π) : Option (State π) :=
  match s.query with
  | .idle => none
  | .readPhlIdx wptr =>
    if 0 < phlCalcAvailRptr (toU16 s.ring.coreIdx) wptr maxPhlRingEntryNum then
      some { s with query := .decided (nextPtr (toU16 s.ring.coreIdx)) }
    else
      some { s with query := .idle }
  | .decided rptr => some { s with query := .taken rptr (s.ring.entry rptr) }
  | .taken rptr recvpkt =>
    some { s with
      ring.entry := Function.update s.ring.entry rptr none
      query := .cleared rptr recvpkt }
  | .cleared rptr recvpkt =>
    some { s with
      ring.coreIdx := if rptr ≠ 0 then s.ring.coreIdx + 1 else 0
      query := .idle
      received := s.received ++ [recvpkt] }

inductive Event (π : Type) where
  /-- A caller enters `_phl_add_rx_pkt`, takes the lock and reads `phl_idx`. -/
  | add (recvpkt : π)
  | addStep
  /-- The core enters `rtw_phl_query_rx_pkt` and reads `phl_idx`. -/
  | query
  | queryStep
  deriving DecidableEq

/-- One event; `none` for a call that has to wait and for the next piece of no call. -/
def step (s : State π) : Event π → Option (State π)
  | .add recvpkt =>
    match s.add with
    | .idle => some { s with add := .readPhlIdx recvpkt (toU16 s.ring.phlIdx) }
    | _ => none
  | .addStep => addStep s
  | .query =>
    match s.query with
    | .idle => some { s with query := .readPhlIdx (toU16 s.ring.phlIdx) }
    | _ => none
  | .queryStep => queryStep s

/-! ## Invariant -/

/-- The packets accepted and not received yet. -/
def unread (s : State π) : List π := s.accepted.drop s.received.length

/-- The entries with the one put back that the running query has taken out. -/
def view (s : State π) : ℕ → Option π :=
  match s.query with
  | .cleared rptr recvpkt => Function.update s.ring.entry rptr recvpkt
  | _ => s.ring.entry

/-- What the running call of `_phl_add_rx_pkt` knows. -/
def AddOk (s : State π) : Prop :=
  match s.add with
  | .idle => True
  | .readPhlIdx _ wptr => wptr = s.ring.phlIdx
  | .decided _ wptr =>
    wptr = (s.ring.phlIdx + 1) % maxPhlRingEntryNum ∧
      (unread s).length + 1 < maxPhlRingEntryNum
  | .written recvpkt wptr =>
    wptr = (s.ring.phlIdx + 1) % maxPhlRingEntryNum ∧
      (unread s).length + 1 < maxPhlRingEntryNum ∧ view s wptr = some recvpkt

/-- What the running query knows: its `phl_idx` may be an old one, but what it found available
still is. -/
def QueryOk (s : State π) : Prop :=
  match s.query with
  | .idle => True
  | .readPhlIdx wptr =>
    ∃ n ≤ (unread s).length, wptr = (s.ring.coreIdx + n) % maxPhlRingEntryNum
  | .decided rptr =>
    rptr = (s.ring.coreIdx + 1) % maxPhlRingEntryNum ∧ unread s ≠ []
  | .taken rptr recvpkt | .cleared rptr recvpkt =>
    rptr = (s.ring.coreIdx + 1) % maxPhlRingEntryNum ∧
      ∃ pkt rest, unread s = pkt :: rest ∧ recvpkt = some pkt

/-- What holds between any two pieces of the calls. -/
structure Inv (s : State π) : Prop where
  /-- The core has received the first packets. -/
  received_eq : s.received = (s.accepted.take s.received.length).map some
  /-- The ring holds the others. -/
  ring : Ring maxPhlRingEntryNum (view s) s.ring.coreIdx s.ring.phlIdx (unread s)
  add : AddOk s
  query : QueryOk s

variable {s s' : State π}

theorem inv_init (π : Type) : Inv (init π) where
  received_eq := rfl
  ring := Ring.empty (show 0 < maxPhlRingEntryNum by decide)
  add := trivial
  query := trivial

theorem Inv.toU16_coreIdx (h : Inv s) : toU16 s.ring.coreIdx = s.ring.coreIdx :=
  toU16_natCast (h.ring.read_lt.trans (by decide))

theorem Inv.toU16_phlIdx (h : Inv s) : toU16 s.ring.phlIdx = s.ring.phlIdx :=
  toU16_natCast (h.ring.write_lt.trans (by decide))

theorem Inv.received_le (h : Inv s) : s.received.length ≤ s.accepted.length := by
  have := congrArg List.length h.received_eq
  rw [List.length_map, List.length_take] at this
  omega

/-- The slot of the first unread packet is not the one that is written next. -/
theorem first_ne_next (h : Inv s) (hfit : (unread s).length + 1 < maxPhlRingEntryNum)
    (hne : unread s ≠ []) :
    (s.ring.phlIdx + 1) % maxPhlRingEntryNum ≠ (s.ring.coreIdx + 1) % maxPhlRingEntryNum := by
  intro heq
  have hpos := List.length_pos_iff.mpr hne
  rw [h.ring.next_write] at heq
  have := cyclic_injective hfit (show 1 < maxPhlRingEntryNum by decide) heq
  omega

/-- The running query does not mind if packets are added. -/
theorem QueryOk.mono (h : QueryOk s) (hq : s'.query = s.query)
    (hc : s'.ring.coreIdx = s.ring.coreIdx) (hu : unread s <+: unread s') : QueryOk s' := by
  obtain ⟨new, hnew⟩ := hu
  unfold QueryOk at h ⊢
  rw [hq, hc]
  cases hs : s.query with
  | idle => trivial
  | readPhlIdx wptr =>
    rw [hs] at h
    obtain ⟨n, hn, hw⟩ := h
    refine ⟨n, ?_, hw⟩
    rw [← hnew, List.length_append]
    omega
  | decided rptr =>
    rw [hs] at h
    exact ⟨h.1, by rw [← hnew]; exact List.append_ne_nil_of_left_ne_nil h.2 new⟩
  | taken rptr recvpkt | cleared rptr recvpkt =>
    rw [hs] at h
    obtain ⟨hr, pkt, rest, hun, hp⟩ := h
    exact ⟨hr, pkt, rest ++ new, by rw [← hnew, hun, List.cons_append], hp⟩

/-- The running add does not mind if packets are taken. -/
theorem AddOk.mono (h : AddOk s) (ha : s'.add = s.add) (hp : s'.ring.phlIdx = s.ring.phlIdx)
    (hlen : (unread s').length ≤ (unread s).length)
    (hview : ∀ recvpkt wptr, s.add = .written recvpkt wptr → view s' wptr = view s wptr) :
    AddOk s' := by
  unfold AddOk at h ⊢
  rw [ha, hp]
  cases hs : s.add with
  | idle => trivial
  | readPhlIdx recvpkt wptr =>
    rw [hs] at h
    exact h
  | decided recvpkt wptr =>
    rw [hs] at h
    exact ⟨h.1, by omega⟩
  | written recvpkt wptr =>
    rw [hs] at h
    exact ⟨h.1, by omega, (hview _ _ hs).trans h.2.2⟩

/-! ## The pieces of `_phl_add_rx_pkt` -/

/-- A slot other than the one the query has taken out is written. -/
theorem view_write (h : Inv s) {recvpkt : π} {wptr : ℕ} (hadd : s.add = .decided recvpkt wptr) :
    view { s with
      ring.entry := Function.update s.ring.entry wptr (some recvpkt)
      add := .written recvpkt wptr } = Function.update (view s) wptr (some recvpkt) := by
  have ha := h.add
  have hq := h.query
  unfold AddOk at ha
  unfold QueryOk at hq
  rw [hadd] at ha
  unfold view
  cases hs : s.query with
  | cleared rptr taken =>
    rw [hs] at hq
    obtain ⟨hr, pkt, rest, hun, -⟩ := hq
    have hne : wptr ≠ rptr := by
      rw [ha.1, hr]
      exact first_ne_next h ha.2 (by rw [hun]; exact List.cons_ne_nil _ _)
    exact Function.update_comm hne _ _ _
  | idle | readPhlIdx | decided | taken => rfl

theorem Inv.addStep (h : Inv s) (hs : addStep s = some s') : Inv s' := by
  have ha := h.add
  unfold AddOk at ha
  unfold RxRing.addStep at hs
  cases hadd : s.add with
  | idle =>
    rw [hadd] at hs
    cases hs
  | readPhlIdx recvpkt wptr =>
    rw [hadd] at hs ha
    dsimp only at hs ha
    rw [h.toU16_coreIdx, ha, phlCalcAvailWptr_eq h.ring (by decide)] at hs
    split at hs
    · obtain rfl := Option.some.inj hs
      exact ⟨h.received_eq, h.ring, trivial, h.query⟩
    · rename_i hroom
      obtain rfl := Option.some.inj hs
      refine ⟨h.received_eq, h.ring, ⟨nextPtr_eq h.ring.write_lt, ?_⟩, h.query⟩
      show (unread s).length + 1 < maxPhlRingEntryNum
      omega
  | decided recvpkt wptr =>
    rw [hadd] at hs ha
    obtain rfl := Option.some.inj hs
    have hview := view_write h hadd
    refine ⟨h.received_eq, ?_, ⟨ha.1, ha.2, ?_⟩, h.query⟩
    · rw [hview, ha.1]
      exact h.ring.write_next ha.2 (some recvpkt)
    · rw [hview]
      exact Function.update_self wptr (some recvpkt) (view s)
  | written recvpkt wptr =>
    rw [hadd] at hs ha
    obtain rfl := Option.some.inj hs
    obtain ⟨hw, hroom, hentry⟩ := ha
    -- the index that is published is the slot that was written
    have hidx := inc_or_reset_eq h.ring.write_lt hw
    have hun : (s.accepted ++ [recvpkt]).drop s.received.length = unread s ++ [recvpkt] :=
      List.drop_append_of_le_length h.received_le
    refine ⟨?_, ?_, trivial, h.query.mono rfl rfl ⟨[recvpkt], hun.symm⟩⟩
    · show s.received = ((s.accepted ++ [recvpkt]).take s.received.length).map some
      rw [List.take_append_of_le_length h.received_le]
      exact h.received_eq
    · show Ring _ (view s) s.ring.coreIdx (if wptr ≠ 0 then s.ring.phlIdx + 1 else 0)
        ((s.accepted ++ [recvpkt]).drop s.received.length)
      rw [hidx, hun, hw]
      exact h.ring.push hroom (by rw [← hw]; exact hentry)

/-! ## The pieces of `rtw_phl_query_rx_pkt` -/

/-- Setting an entry to `NULL` after it has been read is not seen. -/
theorem view_clear {rptr : ℕ} {recvpkt : Option π} (hentry : s.ring.entry rptr = recvpkt) :
    view { s with
      ring.entry := Function.update s.ring.entry rptr none
      query := .cleared rptr recvpkt } = s.ring.entry := by
  show Function.update (Function.update s.ring.entry rptr none) rptr recvpkt = s.ring.entry
  rw [Function.update_idem, ← hentry, Function.update_eq_self]

theorem Inv.queryStep (h : Inv s) (hs : queryStep s = some s') : Inv s' := by
  have hq := h.query
  have hring := h.ring
  unfold QueryOk at hq
  unfold view at hring
  unfold RxRing.queryStep at hs
  cases hquery : s.query with
  | idle =>
    rw [hquery] at hs
    cases hs
  | readPhlIdx wptr =>
    rw [hquery] at hs hq hring
    obtain ⟨n, hn, rfl⟩ := hq
    have hlen : ((unread s).take n).length = n := List.length_take_of_le hn
    dsimp only at hs
    rw [h.toU16_coreIdx, phlCalcAvailRptr_eq (h.ring.take hn) (by decide), hlen] at hs
    split at hs
    · rename_i hpos
      obtain rfl := Option.some.inj hs
      refine ⟨h.received_eq, hring, h.add.mono rfl rfl le_rfl ?_, nextPtr_eq h.ring.read_lt, ?_⟩
      · intro _ _ _
        simp only [view, hquery]
      · exact List.ne_nil_of_length_pos (show 0 < (unread s).length by omega)
    · obtain rfl := Option.some.inj hs
      refine ⟨h.received_eq, hring, h.add.mono rfl rfl le_rfl ?_, trivial⟩
      intro _ _ _
      simp only [view, hquery]
  | decided rptr =>
    rw [hquery] at hs hq hring
    obtain rfl := Option.some.inj hs
    obtain ⟨pkt, rest, hun⟩ := List.exists_cons_of_ne_nil hq.2
    refine ⟨h.received_eq, hring, h.add.mono rfl rfl le_rfl ?_, hq.1, pkt, rest, hun, ?_⟩
    · intro _ _ _
      simp only [view, hquery]
    · rw [hun] at hring
      rw [hq.1]
      exact hring.first
  | taken rptr recvpkt =>
    rw [hquery] at hs hq hring
    obtain rfl := Option.some.inj hs
    obtain ⟨hr, pkt, rest, hun, hp⟩ := hq
    have hentry : s.ring.entry rptr = recvpkt := by
      rw [hun] at hring
      rw [hr, hp]
      exact hring.first
    have hview := view_clear hentry
    refine ⟨h.received_eq, ?_, h.add.mono rfl rfl le_rfl ?_, hr, pkt, rest, hun, hp⟩
    · rw [hview]
      exact hring
    · intro _ _ _
      rw [hview]
      simp only [view, hquery]
  | cleared rptr recvpkt =>
    rw [hquery] at hs hq hring
    obtain rfl := Option.some.inj hs
    obtain ⟨hr, pkt, rest, hun, rfl⟩ := hq
    have hidx := inc_or_reset_eq h.ring.read_lt hr
    have hun' : s.accepted.drop (s.received ++ [some pkt]).length = rest := by
      rw [List.length_append, ← List.drop_drop]
      show (unread s).drop 1 = rest
      rw [hun, List.drop_one, List.tail_cons]
    rw [hun] at hring
    refine ⟨?_, ?_, h.add.mono rfl rfl ?_ ?_, trivial⟩
    · show s.received ++ [some pkt] =
        (s.accepted.take (s.received ++ [some pkt]).length).map some
      have hfirst : (s.accepted.drop s.received.length).take 1 = [pkt] := by
        show (unread s).take 1 = [pkt]
        rw [hun, List.take_one, List.head?_cons, Option.toList_some]
      rw [List.length_append, List.length_singleton, List.take_add, hfirst, List.map_append,
        ← h.received_eq, List.map_singleton]
    · show Ring _ s.ring.entry (if rptr ≠ 0 then s.ring.coreIdx + 1 else 0) s.ring.phlIdx
        (s.accepted.drop (s.received ++ [some pkt]).length)
      rw [hidx, hun', hr]
      -- the taken entry is cleared in the ring without it
      have hpop := hring.pop.clear_dropped hring.length_lt (s.ring.entry rptr)
      rwa [← hr, Function.update_idem, Function.update_eq_self, hr] at hpop
    · show (s.accepted.drop (s.received ++ [some pkt]).length).length ≤ (unread s).length
      rw [hun', hun, List.length_cons]
      exact Nat.le_succ _
    · intro added wptr hadd
      have ha := h.add
      unfold AddOk at ha
      rw [hadd] at ha
      have hne : wptr ≠ rptr := by
        rw [ha.1, hr]
        exact first_ne_next h ha.2.1 (by rw [hun]; exact List.cons_ne_nil _ _)
      show s.ring.entry wptr = view s wptr
      simp only [view, hquery]
      rw [Function.update_of_ne hne]

/-! ## Runs -/

theorem Inv.step {e : Event π} (h : Inv s) (hs : step s e = some s') : Inv s' := by
  cases e with
  | add recvpkt =>
    simp only [RxRing.step] at hs
    split at hs
    · obtain rfl := Option.some.inj hs
      exact ⟨h.received_eq, h.ring, h.toU16_phlIdx, h.query⟩
    · cases hs
  | addStep => exact h.addStep hs
  | query =>
    simp only [RxRing.step] at hs
    split at hs
    · rename_i hidle
      obtain rfl := Option.some.inj hs
      have hview : view s = s.ring.entry := by simp only [view, hidle]
      have hring := h.ring
      rw [hview] at hring
      refine ⟨h.received_eq, hring, h.add.mono rfl rfl le_rfl fun _ _ _ => ?_, ?_⟩
      · rw [hview]
        rfl
      · exact ⟨(unread s).length, le_rfl, h.toU16_phlIdx.trans h.ring.write_eq⟩
    · cases hs
  | queryStep => exact h.queryStep hs

/-- The invariant holds after every interleaving of adds and queries. -/
theorem run_inv {es : List (Event π)} (h : run step (init π) es = some s) : Inv s :=
  run_preserves Inv (fun _ _ _ hinv _ hs => hinv.step hs) (inv_init π)
    (guarded_of_forall (fun _ _ => trivial) _) h

/-- A packet that has not been received is in its entry, unless the running query has just taken
it out. -/
theorem Inv.entry_eq (h : Inv s) (k : ℕ) (hk : k < (unread s).length) :
    s.ring.entry ((s.ring.coreIdx + (k + 1)) % maxPhlRingEntryNum) = some (unread s)[k] ∨
      k = 0 ∧ ∃ rptr, s.query = .cleared rptr (some (unread s)[k]) := by
  have hholds := h.ring.holds k hk
  have hq := h.query
  unfold QueryOk at hq
  unfold view at hholds
  cases hquery : s.query with
  | cleared rptr recvpkt =>
    rw [hquery] at hq hholds
    obtain ⟨hr, pkt, rest, hun, rfl⟩ := hq
    by_cases hk0 : k = 0
    · subst hk0
      exact .inr ⟨rfl, rptr, by simp only [hun, List.getElem_cons_zero]⟩
    · left
      have hne : (s.ring.coreIdx + (k + 1)) % maxPhlRingEntryNum ≠ rptr := by
        rw [hr]
        intro heq
        have hlt := h.ring.length_lt
        have := cyclic_injective (show k + 1 < maxPhlRingEntryNum by omega) (by decide) heq
        omega
      exact (Function.update_of_ne hne _ _).symm.trans hholds
  | idle | readPhlIdx | decided | taken =>
    rw [hquery] at hholds
    exact .inl hholds

/-- An add writes no entry of a packet that has not been received. -/
theorem Inv.addStep_entry (h : Inv s) (hs : RxRing.addStep s = some s') (k : ℕ)
    (hk : k < (unread s).length) :
    s'.ring.entry ((s.ring.coreIdx + (k + 1)) % maxPhlRingEntryNum) =
      s.ring.entry ((s.ring.coreIdx + (k + 1)) % maxPhlRingEntryNum) := by
  have ha := h.add
  unfold AddOk at ha
  unfold RxRing.addStep at hs
  cases hadd : s.add with
  | decided recvpkt wptr =>
    rw [hadd] at hs ha
    obtain rfl := Option.some.inj hs
    refine Function.update_of_ne ?_ _ _
    rw [ha.1, h.ring.next_write]
    exact slot_ne_next ha.2 k hk
  | idle =>
    rw [hadd] at hs
    cases hs
  | readPhlIdx recvpkt wptr =>
    rw [hadd] at hs
    dsimp only at hs
    split at hs <;> (obtain rfl := Option.some.inj hs; rfl)
  | written recvpkt wptr =>
    rw [hadd] at hs
    obtain rfl := Option.some.inj hs
    rfl

/-- A refused add has found the ring full and does not touch it. -/
theorem Inv.refused (h : Inv s) (hs : RxRing.addStep s = some s') {pkt : π}
    (href : s'.returned = s.returned ++ [(pkt, .resource)]) :
    (unread s).length = maxPhlRingEntryNum - 1 ∧ s'.ring = s.ring := by
  have ha := h.add
  have hlt := h.ring.length_lt
  unfold AddOk at ha
  unfold RxRing.addStep at hs
  cases hadd : s.add with
  | idle =>
    rw [hadd] at hs
    cases hs
  | readPhlIdx recvpkt wptr =>
    rw [hadd] at hs ha
    dsimp only at hs ha
    rw [h.toU16_coreIdx, ha, phlCalcAvailWptr_eq h.ring (by decide)] at hs
    split at hs
    · obtain rfl := Option.some.inj hs
      exact ⟨by omega, rfl⟩
    · obtain rfl := Option.some.inj hs
      simp at href
  | decided recvpkt wptr =>
    rw [hadd] at hs
    obtain rfl := Option.some.inj hs
    simp at href
  | written recvpkt wptr =>
    rw [hadd] at hs
    obtain rfl := Option.some.inj hs
    simp at href

/-- In every interleaving of adds and queries: the core receives the accepted packets in order,
each once; a packet that has not been received stays in its entry, and no add writes there; and
an add is refused only when `MAX_PHL_RING_ENTRY_NUM - 1` packets are unread, with the ring left
as it was. -/
theorem rx_ring_fifo {es : List (Event π)} (h : run step (init π) es = some s) :
    s.received <+: s.accepted.map some ∧
    (∀ (k : ℕ) (hk : k < (unread s).length),
      s.ring.entry ((s.ring.coreIdx + (k + 1)) % maxPhlRingEntryNum) = some (unread s)[k] ∨
        k = 0 ∧ ∃ rptr, s.query = .cleared rptr (some (unread s)[k])) ∧
    (∀ s', step s .addStep = some s' → ∀ k < (unread s).length,
      s'.ring.entry ((s.ring.coreIdx + (k + 1)) % maxPhlRingEntryNum) =
        s.ring.entry ((s.ring.coreIdx + (k + 1)) % maxPhlRingEntryNum)) ∧
    (∀ pkt s', step s (.add pkt) = some s' → s'.ring = s.ring) ∧
    (∀ pkt s', step s .addStep = some s' →
      s'.returned = s.returned ++ [(pkt, .resource)] →
      (unread s).length = maxPhlRingEntryNum - 1 ∧ s'.ring = s.ring) := by
  have hinv := run_inv h
  refine ⟨?_, hinv.entry_eq, fun s' hs => hinv.addStep_entry hs, fun pkt s' hs => ?_,
    fun pkt s' hs => hinv.refused hs⟩
  · rw [hinv.received_eq]
    exact (List.take_prefix _ _).map some
  · simp only [step] at hs
    split at hs
    · obtain rfl := Option.some.inj hs
      rfl
    · cases hs

/-- Two adds, the second of them overtaken by a query. -/
def interleavedCalls : List (Event ℕ) :=
  [.add 7, .addStep, .addStep, .query, .addStep, .queryStep, .add 8, .query, .queryStep, .addStep,
    .queryStep, .addStep, .queryStep, .queryStep, .addStep]

theorem rx_ring_fifo_interleaved :
    ∃ s, run step (init ℕ) interleavedCalls = some s ∧ s.received = [some 7] ∧
      s.accepted = [7, 8] ∧ s.received <+: s.accepted.map some :=
  ⟨_, rfl, rfl, rfl, (rx_ring_fifo (show run step (init ℕ) interleavedCalls = some _ from rfl)).1⟩

end Rtl88x2cu.Trx.RxRing
