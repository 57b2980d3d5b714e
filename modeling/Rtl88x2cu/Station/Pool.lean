import Mathlib.Algebra.Order.Ring.Nat
import Mathlib.Data.List.Nodup
import Rtl88x2cu.Station.Tables

/-!
# The pool of stations

Every station-info object of the pool is in the free queue, in the queue of associated stations of
its role, or in the hands of the operation that is moving it (`Queues`). Together with the
agreement of the macid tables this is the invariant `Inv` of the station tables. It holds in every
reachable state (`run_inv`), whatever sub-steps fail.
-/

namespace Rtl88x2cu.Station

open Trx (RtwPhlStatus)

/-- The object is in the queue of some role. -/
def InAssoc (s : State) (x : ℕ) : Prop := ∃ r, x ∈ (s.assocStaQueue r).queue

/-- The objects of the pool, `staNum` in number, are split between the free queue, the queues of
the roles, and `hand`. -/
structure Queues (staNum : ℕ) (hand : Option ℕ) (s : State) : Prop where
  freeWf : s.freeStaQueue.Wf
  assocWf (r : ℕ) : (s.assocStaQueue r).Wf
  freeNodup : s.freeStaQueue.queue.Nodup
  assocNodup (r : ℕ) : (s.assocStaQueue r).queue.Nodup
  /-- A station in the queue of a role belongs to the role. -/
  wrole {r x : ℕ} : x ∈ (s.assocStaQueue r).queue → (s.staInfo x).wrole = r
  free_not_assoc {x : ℕ} : x ∈ s.freeStaQueue.queue → ¬ InAssoc s x
  hand_not_free {x : ℕ} : x ∈ hand → x ∉ s.freeStaQueue.queue
  hand_not_assoc {x : ℕ} : x ∈ hand → ¬ InAssoc s x
  cover (x : ℕ) : x < staNum ↔ x ∈ s.freeStaQueue.queue ∨ InAssoc s x ∨ x ∈ hand

/-- A dequeue removes the first object. -/
theorem dequeue_spec {q q' : PhlQueue ℕ} {x : ℕ} (h : phlStainfoDequeue q = some (x, q')) :
    q.queue = x :: q'.queue ∧ q'.cnt = q.cnt - 1 := by
  unfold phlStainfoDequeue at h
  split at h
  · cases h
  next hq =>
    obtain ⟨rfl, rfl⟩ := Prod.mk.inj (Option.some.inj h)
    exact ⟨hq, rfl⟩

/-- On a well-formed queue that holds the object, a deletion is that of a node. -/
theorem queueDel_eq {q : PhlQueue ℕ} (h : q.Wf) {x : ℕ} (hx : x ∈ q.queue) :
    phlStainfoQueueDel q x = pqDelNode q x := by
  have hpos := List.length_pos_of_mem hx
  have hcnt : q.cnt ≠ 0 := by
    simp only [PhlQueue.Wf] at h
    omega
  unfold phlStainfoQueueDel pqDelNode
  rw [if_pos hcnt]

/-- A dequeue is the deletion of the first object. -/
theorem dequeue_eq_queueDel {q q' : PhlQueue ℕ} (h : q.Wf) {x : ℕ}
    (hq : phlStainfoDequeue q = some (x, q')) : x ∈ q.queue ∧ q' = phlStainfoQueueDel q x := by
  obtain ⟨hqueue, hcnt⟩ := dequeue_spec hq
  have hx : x ∈ q.queue := by
    rw [hqueue]
    exact List.mem_cons_self
  refine ⟨hx, ?_⟩
  rw [queueDel_eq h hx]
  unfold pqDelNode
  rw [hqueue, List.erase_cons_head, ← hcnt]

theorem nodup_enqueue {q : PhlQueue ℕ} (h : q.queue.Nodup) {x : ℕ} (hx : x ∉ q.queue) :
    (phlStainfoEnqueue q x).queue.Nodup := by
  refine List.nodup_append.mpr ⟨h, List.nodup_singleton x, ?_⟩
  intro y hy z hz
  rw [List.mem_singleton.mp hz]
  exact fun heq => hx (heq ▸ hy)

/-! ## Membership in the queues of the roles -/

section InAssoc

variable {s t : State} {r x y : ℕ}

theorem inAssoc_congr (h : t.assocStaQueue = s.assocStaQueue) : InAssoc t y ↔ InAssoc s y := by
  unfold InAssoc
  rw [h]

theorem inAssoc_enqueue :
    InAssoc (s.setAssoc r (phlStainfoEnqueue (s.assocStaQueue r) x)) y ↔ InAssoc s y ∨ y = x := by
  constructor
  · rintro ⟨r', hy⟩
    by_cases hr : r' = r
    · rw [hr, setAssoc_self] at hy
      obtain hy | hy := List.mem_append.mp hy
      · exact Or.inl ⟨r, hy⟩
      · exact Or.inr (List.mem_singleton.mp hy)
    · rw [setAssoc_of_ne _ _ hr] at hy
      exact Or.inl ⟨r', hy⟩
  · rintro (⟨r', hy⟩ | rfl)
    · refine ⟨r', ?_⟩
      by_cases hr : r' = r
      · rw [hr, setAssoc_self]
        exact List.mem_append_left _ (hr ▸ hy)
      · rwa [setAssoc_of_ne _ _ hr]
    · refine ⟨r, ?_⟩
      rw [setAssoc_self]
      exact List.mem_append_right _ (List.mem_singleton_self y)

end InAssoc

namespace Queues

variable {staNum : ℕ} {hand : Option ℕ} {s t : State} {r x y : ℕ}

/-- What the split depends on. -/
theorem congr (h : Queues staNum hand s) (hfree : t.freeStaQueue = s.freeStaQueue)
    (hassoc : t.assocStaQueue = s.assocStaQueue)
    (hwrole : ∀ y, InAssoc s y → (t.staInfo y).wrole = (s.staInfo y).wrole) :
    Queues staNum hand t where
  freeWf := hfree ▸ h.freeWf
  assocWf := hassoc ▸ h.assocWf
  freeNodup := hfree ▸ h.freeNodup
  assocNodup := hassoc ▸ h.assocNodup
  wrole {r y} hy := by
    rw [hassoc] at hy
    rw [hwrole y ⟨r, hy⟩]
    exact h.wrole hy
  free_not_assoc hy := by
    rw [inAssoc_congr hassoc]
    rw [hfree] at hy
    exact h.free_not_assoc hy
  hand_not_free hy := by
    rw [hfree]
    exact h.hand_not_free hy
  hand_not_assoc hy := by
    rw [inAssoc_congr hassoc]
    exact h.hand_not_assoc hy
  cover y := by rw [hfree, inAssoc_congr hassoc, h.cover]

/-- The operations on macids and rings keep the split. -/
theorem frame (h : Queues staNum hand s) (ht : Frame s t) : Queues staNum hand t :=
  h.congr ht.free ht.assoc fun y _ => ht.wrole y

/-- A station is live if it is in the queue of any role. -/
theorem live_iff (h : Queues staNum hand s) : Live s x ↔ InAssoc s x := by
  constructor
  · intro hx
    exact ⟨_, hx⟩
  · rintro ⟨r, hx⟩
    unfold Live
    rwa [h.wrole hx]

/-- An object is taken from the free queue. -/
theorem takeFree (h : Queues staNum none s) {q : PhlQueue ℕ}
    (hq : phlStainfoDequeue s.freeStaQueue = some (x, q)) :
    Queues staNum (some x) { s with freeStaQueue := q } := by
  obtain ⟨hqueue, hcnt⟩ := dequeue_spec hq
  have hnodup := h.freeNodup
  rw [hqueue, List.nodup_cons] at hnodup
  have hx : x ∈ s.freeStaQueue.queue := by
    rw [hqueue]
    exact List.mem_cons_self
  have hsub {y : ℕ} (hy : y ∈ q.queue) : y ∈ s.freeStaQueue.queue := by
    rw [hqueue]
    exact List.mem_cons_of_mem x hy
  exact
  { freeWf := by
      have hwf := h.freeWf
      simp only [PhlQueue.Wf, hqueue, List.length_cons] at hwf ⊢
      omega
    assocWf := h.assocWf
    freeNodup := hnodup.2
    assocNodup := h.assocNodup
    wrole := h.wrole
    free_not_assoc := fun hy => h.free_not_assoc (hsub hy)
    hand_not_free := by
      rintro y hy
      obtain rfl := Option.some.inj hy
      exact hnodup.1
    hand_not_assoc := by
      rintro y hy
      obtain rfl := Option.some.inj hy
      exact h.free_not_assoc hx
    cover := by
      intro y
      rw [h.cover, hqueue, List.mem_cons, Option.mem_some, Option.mem_def]
      have hassoc : InAssoc { s with freeStaQueue := q } y ↔ InAssoc s y := Iff.rfl
      rw [hassoc, eq_comm]
      tauto }

/-- The object in hand is put into the free queue. -/
theorem giveFree (h : Queues staNum (some x) s) :
    Queues staNum none { s with freeStaQueue := phlStainfoEnqueue s.freeStaQueue x } where
  freeWf := h.freeWf.push x
  assocWf := h.assocWf
  freeNodup := nodup_enqueue h.freeNodup (h.hand_not_free (Option.mem_some_self x))
  assocNodup := h.assocNodup
  wrole := h.wrole
  free_not_assoc {y} hy := by
    obtain hy | hy := List.mem_append.mp hy
    · exact h.free_not_assoc hy
    · rw [List.mem_singleton.mp hy]
      exact h.hand_not_assoc (Option.mem_some_self x)
  hand_not_free hy := by cases hy
  hand_not_assoc hy := by cases hy
  cover y := by
    have hassoc : InAssoc { s with freeStaQueue := phlStainfoEnqueue s.freeStaQueue x } y ↔
      InAssoc s y := Iff.rfl
    have hmem : y ∈ (phlStainfoEnqueue s.freeStaQueue x).queue ↔
        y ∈ s.freeStaQueue.queue ∨ y = x := by
      simp [phlStainfoEnqueue, pqPush]
    rw [h.cover, hassoc, hmem, Option.mem_some, Option.mem_def, eq_comm]
    simp only [reduceCtorEq]
    tauto

/-- The object in hand is put into the queue of its role. -/
theorem giveAssoc (h : Queues staNum (some x) s) (hr : (s.staInfo x).wrole = r) :
    Queues staNum none (s.setAssoc r (phlStainfoEnqueue (s.assocStaQueue r) x)) where
  freeWf := h.freeWf
  assocWf r' := by
    by_cases hr' : r' = r
    · rw [hr', setAssoc_self]
      exact (h.assocWf r).push x
    · rw [setAssoc_of_ne _ _ hr']
      exact h.assocWf r'
  freeNodup := h.freeNodup
  assocNodup r' := by
    by_cases hr' : r' = r
    · rw [hr', setAssoc_self]
      have hx := h.hand_not_assoc (Option.mem_some_self x)
      exact nodup_enqueue (h.assocNodup r) fun hmem => hx ⟨r, hmem⟩
    · rw [setAssoc_of_ne _ _ hr']
      exact h.assocNodup r'
  wrole {r' y} hy := by
    by_cases hr' : r' = r
    · rw [hr', setAssoc_self] at hy
      rw [hr', setAssoc_staInfo]
      obtain hy | hy := List.mem_append.mp hy
      · exact h.wrole hy
      · rw [List.mem_singleton.mp hy, hr]
    · rw [setAssoc_of_ne _ _ hr'] at hy
      exact h.wrole hy
  free_not_assoc {y} hy := by
    rw [inAssoc_enqueue]
    rintro (hassoc | rfl)
    · exact h.free_not_assoc hy hassoc
    · exact h.hand_not_free (Option.mem_some_self y) hy
  hand_not_free hy := by cases hy
  hand_not_assoc hy := by cases hy
  cover y := by
    rw [inAssoc_enqueue, setAssoc_free, h.cover, Option.mem_some, Option.mem_def, eq_comm]
    simp only [reduceCtorEq]
    tauto

theorem mem_queueDel (h : Queues staNum hand s) (hx : x ∈ (s.assocStaQueue r).queue) :
    y ∈ (phlStainfoQueueDel (s.assocStaQueue r) x).queue ↔
      y ∈ (s.assocStaQueue r).queue ∧ y ≠ x := by
  rw [queueDel_eq (h.assocWf r) hx, and_comm]
  exact (h.assocNodup r).mem_erase_iff

theorem inAssoc_queueDel (h : Queues staNum hand s) (hx : x ∈ (s.assocStaQueue r).queue) :
    InAssoc (s.setAssoc r (phlStainfoQueueDel (s.assocStaQueue r) x)) y ↔
      InAssoc s y ∧ y ≠ x := by
  constructor
  · rintro ⟨r', hy⟩
    by_cases hr : r' = r
    · rw [hr, setAssoc_self, h.mem_queueDel hx] at hy
      exact ⟨⟨r, hy.1⟩, hy.2⟩
    · rw [setAssoc_of_ne _ _ hr] at hy
      refine ⟨⟨r', hy⟩, ?_⟩
      rintro rfl
      exact hr ((h.wrole hy).symm.trans (h.wrole hx))
  · rintro ⟨⟨r', hy⟩, hne⟩
    refine ⟨r', ?_⟩
    by_cases hr : r' = r
    · rw [hr, setAssoc_self, h.mem_queueDel hx]
      exact ⟨hr ▸ hy, hne⟩
    · rwa [setAssoc_of_ne _ _ hr]

/-- A station is taken from the queue of its role. -/
theorem takeAssoc (h : Queues staNum none s) (hx : x ∈ (s.assocStaQueue r).queue) :
    Queues staNum (some x) (s.setAssoc r (phlStainfoQueueDel (s.assocStaQueue r) x)) where
  freeWf := h.freeWf
  assocWf r' := by
    by_cases hr : r' = r
    · rw [hr, setAssoc_self, queueDel_eq (h.assocWf r) hx]
      exact (h.assocWf r).delNode hx
    · rw [setAssoc_of_ne _ _ hr]
      exact h.assocWf r'
  freeNodup := h.freeNodup
  assocNodup r' := by
    by_cases hr : r' = r
    · rw [hr, setAssoc_self, queueDel_eq (h.assocWf r) hx]
      exact (h.assocNodup r).erase x
    · rw [setAssoc_of_ne _ _ hr]
      exact h.assocNodup r'
  wrole {r' y} hy := by
    by_cases hr : r' = r
    · rw [hr, setAssoc_self, h.mem_queueDel hx] at hy
      rw [hr]
      exact h.wrole hy.1
    · rw [setAssoc_of_ne _ _ hr] at hy
      exact h.wrole hy
  free_not_assoc {y} hy := by
    rw [h.inAssoc_queueDel hx]
    exact fun hassoc => h.free_not_assoc hy hassoc.1
  hand_not_free {y} hy hfree := by
    obtain rfl := Option.some.inj hy
    exact h.free_not_assoc hfree ⟨r, hx⟩
  hand_not_assoc {y} hy := by
    obtain rfl := Option.some.inj hy
    rw [h.inAssoc_queueDel hx]
    exact fun hassoc => hassoc.2 rfl
  cover y := by
    rw [h.inAssoc_queueDel hx, setAssoc_free, h.cover, Option.mem_some, Option.mem_def]
    have hxa : InAssoc s x := ⟨r, hx⟩
    simp only [reduceCtorEq, or_false]
    by_cases hy : y = x
    · simp [hy, hxa]
    · simp [hy, Ne.symm hy]

end Queues

/-! ## What the operations do -/

/-- `phl_alloc_stainfo_sw` takes a new station from the pool: the pool is empty; there is no macid,
and the object goes back; or the station is put into the queue of its role. -/
theorem newStainfo_cases (s : State) (addr : MacAddr) (r : ℕ) (ringOk : Bool) :
    (s.freeStaQueue.queue = [] ∧ phlNewStainfo s addr r ringOk = (none, s)) ∨
    ∃ x q, phlStainfoDequeue s.freeStaQueue = some (x, q) ∧ ∃ st t,
      phlAllocStainfoSw₀ ({ s with freeStaQueue := q }.setSta x fun i =>
        { i with macAddr := addr, wrole := r }) x ringOk = (st, t) ∧
      ((st = .failure ∧ phlNewStainfo s addr r ringOk =
        (none, { t with freeStaQueue := phlStainfoEnqueue t.freeStaQueue x })) ∨
      (st = .success ∧ phlNewStainfo s addr r ringOk =
        (some x, t.setAssoc r (phlStainfoEnqueue (t.assocStaQueue r) x)))) := by
  cases hq : s.freeStaQueue.queue with
  | nil =>
    refine Or.inl ⟨rfl, ?_⟩
    simp only [phlNewStainfo, phlStainfoDequeue, hq]
  | cons x l =>
    have hdeq : phlStainfoDequeue s.freeStaQueue =
        some (x, { queue := l, cnt := s.freeStaQueue.cnt - 1 }) := by
      simp only [phlStainfoDequeue, hq]
    refine Or.inr ⟨x, _, hdeq, ?_⟩
    generalize hs₁ : ({ s with
      freeStaQueue := { queue := l, cnt := s.freeStaQueue.cnt - 1 } }.setSta
      x fun i => { i with macAddr := addr, wrole := r }) = s₁
    obtain ⟨-, hcase⟩ | ⟨m, -, ⟨-, hcase⟩ | ⟨-, hcase⟩⟩ := allocStainfoSw₀_cases s₁ x ringOk
    · refine ⟨_, _, hcase, Or.inl ⟨rfl, ?_⟩⟩
      simp only [phlNewStainfo, hdeq, hs₁, hcase]
    · refine ⟨_, _, hcase, Or.inr ⟨rfl, ?_⟩⟩
      simp only [phlNewStainfo, hdeq, hs₁, hcase]
    · refine ⟨_, _, hcase, Or.inr ⟨rfl, ?_⟩⟩
      simp only [phlNewStainfo, hdeq, hs₁, hcase]

/-- `phl_alloc_stainfo_sw` gives the station of the role itself the address, finds the station, or
takes a new one. -/
theorem allocStainfoSw_cases (s : State) (addr : MacAddr) (r : ℕ) (ringOk : Bool) :
    (∃ x, selfStainfo s addr r = some x ∧ phlAllocStainfoSw s addr r ringOk =
      (some x, s.setSta x fun i => { i with macAddr := addr })) ∨
    (selfStainfo s addr r = none ∧ ∃ x, rtwPhlGetStainfoByAddr s r addr = some x ∧
      phlAllocStainfoSw s addr r ringOk = (some x, s)) ∨
    (selfStainfo s addr r = none ∧ rtwPhlGetStainfoByAddr s r addr = none ∧
      phlAllocStainfoSw s addr r ringOk = phlNewStainfo s addr r ringOk) := by
  cases hself : selfStainfo s addr r with
  | some x =>
    refine Or.inl ⟨x, rfl, ?_⟩
    simp only [phlAllocStainfoSw, hself]
  | none =>
    refine Or.inr ?_
    cases hfind : rtwPhlGetStainfoByAddr s r addr with
    | some x =>
      refine Or.inl ⟨rfl, x, rfl, ?_⟩
      simp only [phlAllocStainfoSw, hself, hfind]
    | none =>
      refine Or.inr ⟨rfl, rfl, ?_⟩
      simp only [phlAllocStainfoSw, hself, hfind]

/-- The station stands for its role, in the eyes of `phl_free_stainfo_sw`. -/
def IsSelf (s : State) (x : ℕ) : Prop :=
  isBroadcastMacAddr (s.staInfo x).macAddr = false ∧
    (phlSelfStainfoChk s (s.staInfo x).wrole x).1 = true

instance (s : State) (x : ℕ) : Decidable (IsSelf s x) := inferInstanceAs (Decidable (_ ∧ _))

/-- The role is a station or a P2P client. -/
def IsClient (role : WifiRole) : Prop := role.type = .station ∨ role.type = .p2pGc

instance (role : WifiRole) : Decidable (IsClient role) := inferInstanceAs (Decidable (_ ∨ _))

/-- The check for the role itself changes at most the address of the station. -/
theorem selfStainfoChk_state (s : State) (r x : ℕ) :
    (phlSelfStainfoChk s r x).2 = if IsClient (s.wifiRole r) then
      s.setSta x fun i => { i with macAddr := (s.wifiRole r).macAddr } else s := by
  unfold phlSelfStainfoChk
  dsimp only
  by_cases hclient : IsClient (s.wifiRole r)
  · rw [if_pos hclient]
    obtain htype | htype := hclient
    · rw [htype]
    · rw [htype]
  · rw [if_neg hclient]
    split
    next htype => exact absurd (Or.inl htype) hclient
    next htype => exact absurd (Or.inr htype) hclient
    all_goals rfl

theorem selfStainfoChk_client {s : State} {r x : ℕ} (h : IsClient (s.wifiRole r)) :
    (phlSelfStainfoChk s r x).1 = true := by
  unfold phlSelfStainfoChk
  dsimp only
  obtain h | h := h
  · rw [h]
  · rw [h]

/-- `phl_free_stainfo_sw` keeps a station that stands for its role, and gives back any other. -/
theorem freeStainfoSw_cases (s : State) (x : ℕ) :
    (IsSelf s x ∧ IsClient (s.wifiRole (s.staInfo x).wrole) ∧ (phlFreeStainfoSw s x).2 =
      s.setSta x fun i => { i with macAddr := (s.wifiRole (s.staInfo x).wrole).macAddr }) ∨
    (IsSelf s x ∧ ¬ IsClient (s.wifiRole (s.staInfo x).wrole) ∧ (phlFreeStainfoSw s x).2 = s) ∨
    (¬ IsSelf s x ∧ (phlFreeStainfoSw s x).2 = phlRecycleStainfo s x) := by
  cases hbc : isBroadcastMacAddr (s.staInfo x).macAddr with
  | true =>
    refine Or.inr (Or.inr ⟨fun h => ?_, ?_⟩)
    · rw [IsSelf, hbc] at h
      exact absurd h.1 (by decide)
    · simp only [phlFreeStainfoSw, hbc, Bool.not_true, Bool.false_eq_true, ↓reduceIte]
  | false =>
    rcases hchk : phlSelfStainfoChk s (s.staInfo x).wrole x with ⟨chk, s'⟩
    have hstate := selfStainfoChk_state s (s.staInfo x).wrole x
    rw [hchk] at hstate
    have hself : IsSelf s x ↔ chk = true := by
      rw [IsSelf, hbc, hchk]
      exact and_iff_right rfl
    by_cases hclient : IsClient (s.wifiRole (s.staInfo x).wrole)
    · -- the address of the role is copied, and the station is kept
      have htrue := selfStainfoChk_client (x := x) hclient
      rw [hchk] at htrue
      change chk = true at htrue
      rw [if_pos hclient] at hstate
      refine Or.inl ⟨hself.mpr htrue, hclient, ?_⟩
      simp only [phlFreeStainfoSw, hbc, Bool.not_false, ↓reduceIte, hchk, htrue]
      exact hstate
    · rw [if_neg hclient] at hstate
      change s' = s at hstate
      cases chk with
      | true =>
        refine Or.inr (Or.inl ⟨hself.mpr rfl, hclient, ?_⟩)
        simp only [phlFreeStainfoSw, hbc, Bool.not_false, ↓reduceIte, hchk, hstate]
      | false =>
        refine Or.inr (Or.inr ⟨fun h => absurd (hself.mp h) (by decide), ?_⟩)
        simp only [phlFreeStainfoSw, hbc, Bool.not_false, ↓reduceIte, hchk, hstate]

/-- `__phl_alloc_stainfo` goes on from the station of `phl_alloc_stainfo_sw`: it is active, it
becomes active, or it is released again. -/
theorem allocStainfo_cases (s : State) (addr : MacAddr) (r : ℕ) (ringOk hwOk : Bool) :
    (∃ t, phlAllocStainfoSw s addr r ringOk = (none, t) ∧
      phlAllocStainfo s addr r ringOk hwOk = (.failure, none, t)) ∨
    ∃ x t, phlAllocStainfoSw s addr r ringOk = (some x, t) ∧
      (((t.staInfo x).active = true ∧
        phlAllocStainfo s addr r ringOk hwOk = (.success, some x, t)) ∨
      ((t.staInfo x).active = false ∧ hwOk = true ∧ phlAllocStainfo s addr r ringOk hwOk =
        (.success, some x, t.setSta x fun i => { i with active := true })) ∨
      ((t.staInfo x).active = false ∧ hwOk = false ∧ phlAllocStainfo s addr r ringOk hwOk =
        (.failure, none, (phlFreeStainfoSw t x).2))) := by
  rcases hsw : phlAllocStainfoSw s addr r ringOk with ⟨o, t⟩
  cases o with
  | none =>
    refine Or.inl ⟨t, rfl, ?_⟩
    simp only [phlAllocStainfo, hsw]
  | some x =>
    refine Or.inr ⟨x, t, rfl, ?_⟩
    cases hact : (t.staInfo x).active with
    | true =>
      refine Or.inl ⟨rfl, ?_⟩
      simp only [phlAllocStainfo, hsw, hact, ↓reduceIte]
    | false =>
      refine Or.inr ?_
      cases hwOk with
      | true =>
        refine Or.inl ⟨rfl, rfl, ?_⟩
        simp only [phlAllocStainfo, hsw, hact, Bool.false_eq_true, ↓reduceIte, phlAllocStainfoHw]
      | false =>
        refine Or.inr ⟨rfl, rfl, ?_⟩
        simp only [phlAllocStainfo, hsw, hact, Bool.false_eq_true, ↓reduceIte, phlAllocStainfoHw]

/-! ## The invariant -/

/-- The invariant of the station tables. -/
structure Inv (staNum : ℕ) (s : State) : Prop where
  queues : Queues staNum none s
  tables : Tables (InAssoc s) s

theorem inv_init (maxNum staNum : ℕ) (wifiRole : ℕ → WifiRole) :
    Inv staNum (init maxNum staNum wifiRole) := by
  have hassoc (x : ℕ) : ¬ InAssoc (init maxNum staNum wifiRole) x := by
    rintro ⟨r, hx⟩
    cases hx
  refine ⟨?_, ?_⟩
  · exact
    { freeWf := by simp [PhlQueue.Wf, init]
      assocWf := fun _ => rfl
      freeNodup := List.nodup_range
      assocNodup := fun _ => List.nodup_nil
      wrole := fun hx => absurd ⟨_, hx⟩ (hassoc _)
      free_not_assoc := fun _ => hassoc _
      hand_not_free := fun hx => by cases hx
      hand_not_assoc := fun hx => by cases hx
      cover := fun x => by
        rw [or_iff_left (b := InAssoc _ x ∨ _) (by simp [hassoc x])]
        exact List.mem_range.symm }
  · exact
    { used := fun m => by simp [init, phlMacidIsUsed]
      sta := fun hx => by cases hx
      roleMap := fun r m => by simp [init, phlMacidIsUsed]
      ring := fun m => rfl
      holder := fun hx => absurd hx (hassoc _) }

namespace Inv

variable {staNum : ℕ} {s : State} {x r : ℕ}

theorem live_iff (h : Inv staNum s) : Live s x ↔ InAssoc s x := h.queues.live_iff

/-- A write to a station that keeps its role and its macid. -/
theorem setSta (h : Inv staNum s) (x : ℕ) (f : StaInfo → StaInfo)
    (hwrole : ∀ i, (f i).wrole = i.wrole) (hmacid : ∀ i, (f i).macid = i.macid) :
    Inv staNum (s.setSta x f) where
  queues := h.queues.congr rfl rfl fun y _ => setSta_field s x y f StaInfo.wrole hwrole
  tables := h.tables.congr rfl rfl rfl rfl rfl
    (fun y _ => setSta_field s x y f StaInfo.macid hmacid)
    (fun y _ => setSta_field s x y f StaInfo.wrole hwrole)

theorem setAddr (h : Inv staNum s) (x : ℕ) (addr : MacAddr) :
    Inv staNum (s.setSta x fun i => { i with macAddr := addr }) :=
  h.setSta x _ (fun _ => rfl) fun _ => rfl

theorem setActive (h : Inv staNum s) (x : ℕ) :
    Inv staNum (s.setSta x fun i => { i with active := true }) :=
  h.setSta x _ (fun _ => rfl) fun _ => rfl

theorem setRole (h : Inv staNum s) (wifiRole : ℕ → WifiRole) :
    Inv staNum { s with wifiRole := wifiRole } where
  queues := h.queues.congr rfl rfl fun _ _ => rfl
  tables := h.tables.congr rfl rfl rfl rfl rfl (fun _ _ => rfl) fun _ _ => rfl

/-- A live station is given back to the pool. -/
theorem recycle (h : Inv staNum s) (hx : Live s x) : Inv staNum (phlRecycleStainfo s x) := by
  have hiff (y : ℕ) := h.queues.inAssoc_queueDel (y := y) hx
  have hframe := frame_freeStainfoSw₀ (s.setAssoc (s.staInfo x).wrole
    (phlStainfoQueueDel (s.assocStaQueue (s.staInfo x).wrole) x)) x
  have htables : Tables (InAssoc s) (s.setAssoc (s.staInfo x).wrole
      (phlStainfoQueueDel (s.assocStaQueue (s.staInfo x).wrole) x)) :=
    h.tables.congr rfl rfl rfl rfl rfl (fun _ _ => rfl) fun _ _ => rfl
  refine ⟨((h.queues.takeAssoc hx).frame hframe).giveFree, ?_⟩
  have hfree : Tables _ (phlRecycleStainfo s x) :=
    (htables.free ⟨_, hx⟩).congr rfl rfl rfl rfl rfl (fun _ _ => rfl) fun _ _ => rfl
  refine hfree.of_iff fun y => ?_
  rw [← hiff y]
  exact (inAssoc_congr hframe.assoc).symm

/-- Which stations are left after one is given back. -/
theorem inAssoc_recycle (h : Inv staNum s) (hx : Live s x) (y : ℕ) :
    InAssoc (phlRecycleStainfo s x) y ↔ InAssoc s y ∧ y ≠ x := by
  have hframe := frame_freeStainfoSw₀ (s.setAssoc (s.staInfo x).wrole
    (phlStainfoQueueDel (s.assocStaQueue (s.staInfo x).wrole) x)) x
  rw [← h.queues.inAssoc_queueDel hx]
  exact inAssoc_congr hframe.assoc

/-- The object taken from the pool, with its new address and role, before it gets a macid. -/
theorem prepare (h : Inv staNum s) {q : PhlQueue ℕ} (addr : MacAddr) (r : ℕ)
    (hq : phlStainfoDequeue s.freeStaQueue = some (x, q)) :
    let s₁ := { s with freeStaQueue := q }.setSta x fun i => { i with macAddr := addr, wrole := r }
    Queues staNum (some x) s₁ ∧ Tables (InAssoc s) s₁ ∧ ¬ InAssoc s x := by
  have hx : ¬ InAssoc s x := by
    refine h.queues.free_not_assoc ?_
    rw [(dequeue_spec hq).1]
    exact List.mem_cons_self
  have hne {y : ℕ} (hy : InAssoc s y) : y ≠ x := fun heq => hx (heq ▸ hy)
  refine ⟨(h.queues.takeFree hq).congr rfl rfl fun y hy => ?_,
    h.tables.congr rfl rfl rfl rfl rfl (fun y hy => ?_) (fun y hy => ?_), hx⟩
  · rw [setSta_of_ne _ _ (hne hy)]
  · rw [setSta_of_ne _ _ (hne hy)]
  · rw [setSta_of_ne _ _ (hne hy)]

/-- A new station is taken from the pool, or none. -/
theorem newStainfo (h : Inv staNum s) (addr : MacAddr) (r : ℕ) (ringOk : Bool) :
    Inv staNum (phlNewStainfo s addr r ringOk).2 := by
  obtain ⟨-, hcase⟩ | ⟨x, q, hq, st, t, halloc, hcase⟩ := newStainfo_cases s addr r ringOk
  · rw [hcase]
    exact h
  have hframe := frame_allocStainfoSw₀ ({ s with freeStaQueue := q }.setSta x fun i =>
    { i with macAddr := addr, wrole := r }) x ringOk
  obtain ⟨hqueues, htables, hx⟩ := h.prepare addr r hq
  rw [halloc] at hframe
  obtain ⟨rfl, hcase⟩ | ⟨rfl, hcase⟩ := hcase
  · -- no macid: the object goes back to the pool
    rw [hcase]
    refine ⟨(hqueues.frame hframe).giveFree, ?_⟩
    have hback : Tables _ { t with freeStaQueue := phlStainfoEnqueue t.freeStaQueue x } :=
      (htables.alloc_failure hx halloc).congr rfl rfl rfl rfl rfl (fun _ _ => rfl) fun _ _ => rfl
    exact hback.of_iff fun y => (inAssoc_congr hframe.assoc).symm
  · rw [hcase]
    have hr : (t.staInfo x).wrole = r := by
      rw [hframe.wrole, setSta_self]
    refine ⟨(hqueues.frame hframe).giveAssoc hr, ?_⟩
    have hok : Tables _ (t.setAssoc r (phlStainfoEnqueue (t.assocStaQueue r) x)) :=
      (htables.alloc_success hx halloc).congr rfl rfl rfl rfl rfl (fun _ _ => rfl) fun _ _ => rfl
    refine hok.of_iff fun y => ?_
    rw [inAssoc_enqueue]
    exact or_congr_left (inAssoc_congr hframe.assoc).symm

/-- The station that stands for its role in an allocation is in the role's queue. -/
theorem self_mem {addr : MacAddr} (h : selfStainfo s addr r = some x) :
    x ∈ (s.assocStaQueue r).queue := by
  unfold selfStainfo at h
  split at h
  · exact List.mem_of_mem_head? h
  · cases h

/-- Every station that is found is in the queue of some role. -/
theorem inAssoc_found (h : Inv staNum s) {addr : MacAddr}
    (hfind : rtwPhlGetStainfoByAddr s r addr = some x) : InAssoc s x := by
  unfold rtwPhlGetStainfoByAddr at hfind
  split at hfind
  · dsimp only at hfind
    split at hfind
    · cases hfind
    · exact (h.tables.sta hfind).2.2
  · exact ⟨r, List.mem_of_find?_eq_some hfind⟩

/-- `phl_alloc_stainfo_sw` keeps the invariant. -/
theorem allocSw (h : Inv staNum s) (addr : MacAddr) (r : ℕ) (ringOk : Bool) :
    Inv staNum (phlAllocStainfoSw s addr r ringOk).2 := by
  obtain ⟨x, -, hcase⟩ | ⟨-, x, -, hcase⟩ | ⟨-, -, hcase⟩ := allocStainfoSw_cases s addr r ringOk
  · rw [hcase]
    exact h.setAddr x addr
  · rw [hcase]
    exact h
  · rw [hcase]
    exact h.newStainfo addr r ringOk

/-- The station that a new allocation returns is in the queue of the role. -/
theorem newStainfo_mem {addr : MacAddr} {ringOk : Bool} {t : State}
    (heq : phlNewStainfo s addr r ringOk = (some x, t)) : x ∈ (t.assocStaQueue r).queue := by
  obtain ⟨-, hcase⟩ | ⟨y, q, -, st, u, -, ⟨-, hcase⟩ | ⟨-, hcase⟩⟩ :=
    newStainfo_cases s addr r ringOk
  · rw [hcase] at heq
    cases heq
  · rw [hcase] at heq
    cases heq
  · rw [hcase] at heq
    obtain ⟨hx, rfl⟩ := Prod.mk.inj heq
    obtain rfl := Option.some.inj hx
    rw [setAssoc_self]
    exact List.mem_append_right _ (List.mem_singleton_self y)

/-- The station that `phl_alloc_stainfo_sw` returns is live. -/
theorem allocSw_live (h : Inv staNum s) {addr : MacAddr} {ringOk : Bool} {t : State}
    (heq : phlAllocStainfoSw s addr r ringOk = (some x, t)) : Live t x := by
  have ht : Inv staNum t := by
    have hsw := h.allocSw addr r ringOk
    rwa [heq] at hsw
  rw [ht.live_iff]
  obtain ⟨y, hself, hcase⟩ | ⟨-, y, hfind, hcase⟩ | ⟨-, -, hcase⟩ :=
    allocStainfoSw_cases s addr r ringOk
  · rw [hcase] at heq
    obtain ⟨hx, rfl⟩ := Prod.mk.inj heq
    obtain rfl := Option.some.inj hx
    exact ⟨r, self_mem hself⟩
  · rw [hcase] at heq
    obtain ⟨hx, rfl⟩ := Prod.mk.inj heq
    obtain rfl := Option.some.inj hx
    exact h.inAssoc_found hfind
  · rw [hcase] at heq
    exact ⟨r, newStainfo_mem heq⟩

/-! ### A role stops -/

/-- A round of the loop gives the first station of the queue back to the pool. -/
theorem roleFreeLoop_succ (h : Inv staNum s) (n : ℕ) {q : PhlQueue ℕ}
    (hq : phlStainfoDequeue (s.assocStaQueue r) = some (x, q)) :
    Live s x ∧ phlWifiRoleFreeLoop r (n + 1) s =
      phlWifiRoleFreeLoop r n (phlRecycleStainfo s x) := by
  obtain ⟨hx, hdel⟩ := dequeue_eq_queueDel (h.queues.assocWf r) hq
  have hr := h.queues.wrole hx
  refine ⟨h.live_iff.mpr ⟨r, hx⟩, ?_⟩
  simp only [phlWifiRoleFreeLoop, hq, phlRecycleStainfo, hr, hdel]

/-- What giving back a live station keeps, a role stop keeps. -/
theorem roleFreeLoop_induct {P : State → Prop}
    (hP : ∀ s x, Inv staNum s → P s → Live s x → P (phlRecycleStainfo s x)) (r n : ℕ)
    (h : Inv staNum s) (hs : P s) :
    Inv staNum (phlWifiRoleFreeLoop r n s) ∧ P (phlWifiRoleFreeLoop r n s) := by
  induction n generalizing s with
  | zero => exact ⟨h, hs⟩
  | succ n ih =>
    cases hq : phlStainfoDequeue (s.assocStaQueue r) with
    | none =>
      have hend : phlWifiRoleFreeLoop r (n + 1) s = s := by
        simp only [phlWifiRoleFreeLoop, hq]
      rw [hend]
      exact ⟨h, hs⟩
    | some p =>
      obtain ⟨hx, hloop⟩ := h.roleFreeLoop_succ n hq
      rw [hloop]
      exact ih (h.recycle hx) (hP s p.1 h hs hx)

/-- When a role stops, the rounds of the loop are enough: no station is left in its queue. -/
theorem roleFreeLoop_empty (h : Inv staNum s) (n : ℕ)
    (hlen : (s.assocStaQueue r).queue.length = n) :
    ((phlWifiRoleFreeLoop r n s).assocStaQueue r).queue = [] := by
  induction n generalizing s with
  | zero => exact List.length_eq_zero_iff.mp hlen
  | succ n ih =>
    obtain ⟨x, l, hqueue⟩ := List.exists_cons_of_length_eq_add_one hlen
    have hq : phlStainfoDequeue (s.assocStaQueue r) =
        some (x, { queue := l, cnt := (s.assocStaQueue r).cnt - 1 }) := by
      simp only [phlStainfoDequeue, hqueue]
    obtain ⟨hx, hloop⟩ := h.roleFreeLoop_succ n hq
    have hmem : x ∈ (s.assocStaQueue r).queue := by
      rw [hqueue]
      exact List.mem_cons_self
    rw [hloop]
    refine ih (h.recycle hx) ?_
    have hframe := frame_freeStainfoSw₀ (s.setAssoc (s.staInfo x).wrole
      (phlStainfoQueueDel (s.assocStaQueue (s.staInfo x).wrole) x)) x
    have hassoc : (phlRecycleStainfo s x).assocStaQueue r =
        phlStainfoQueueDel (s.assocStaQueue r) x := by
      rw [h.queues.wrole hmem] at hframe
      simp only [phlRecycleStainfo, h.queues.wrole hmem, hframe.assoc, setAssoc_self]
    rw [hassoc, queueDel_eq (h.queues.assocWf r) hmem]
    show ((s.assocStaQueue r).queue.erase x).length = n
    rw [List.length_erase_of_mem hmem, hlen, Nat.add_sub_cancel]

theorem roleStop_empty (h : Inv staNum s) (r : ℕ) :
    ((phlWifiRoleFreeStainfoSw s r).assocStaQueue r).queue = [] :=
  h.roleFreeLoop_empty _ rfl

/-- To show that an event keeps a property of the tables, it is enough to look at
`phl_alloc_stainfo_sw`, and at the four changes the other operations are made of: a role changes, a
station becomes active, a station that stands for its role gets the address of the role, and a
station is given back to the pool. -/
theorem step_rule {P : State → Prop} {e : Event} {s' : State} (h : Inv staNum s) (hP : P s)
    (hsw : ∀ addr r ringOk, e = .allocSw addr r ringOk ∨ (∃ hwOk, e = .alloc addr r ringOk hwOk) →
      P (phlAllocStainfoSw s addr r ringOk).2)
    (hrole : ∀ s wifiRole, P s → P { s with wifiRole := wifiRole })
    (hactive : ∀ s x, P s → P (s.setSta x fun i => { i with active := true }))
    (haddr : ∀ s x, Inv staNum s → P s → Live s x → IsSelf s x →
      P (s.setSta x fun i => { i with macAddr := (s.wifiRole (s.staInfo x).wrole).macAddr }))
    (hback : ∀ s x, Inv staNum s → P s → Live s x → P (phlRecycleStainfo s x))
    (hs : Station.step s e = some s') : P s' := by
  have hfree (t : State) (x : ℕ) (ht : Inv staNum t) (hPt : P t) (hx : Live t x) :
      P (phlFreeStainfoSw t x).2 := by
    obtain ⟨hself, -, hcase⟩ | ⟨-, -, hcase⟩ | ⟨-, hcase⟩ := freeStainfoSw_cases t x
    · rw [hcase]
      exact haddr t x ht hPt hx hself
    · rw [hcase]
      exact hPt
    · rw [hcase]
      exact hback t x ht hPt hx
  cases e with
  | roleAlloc r role =>
    obtain rfl := Option.some.inj hs
    exact hrole s _ hP
  | allocSw addr r ringOk =>
    obtain rfl := Option.some.inj hs
    exact hsw addr r ringOk (Or.inl rfl)
  | alloc addr r ringOk hwOk =>
    obtain rfl := Option.some.inj hs
    have hPt := hsw addr r ringOk (Or.inr ⟨hwOk, rfl⟩)
    have ht := h.allocSw addr r ringOk
    obtain ⟨t, heq, hcase⟩ | ⟨x, t, heq, ⟨-, hcase⟩ | ⟨-, -, hcase⟩ | ⟨-, -, hcase⟩⟩ :=
      allocStainfo_cases s addr r ringOk hwOk
    all_goals rw [heq] at hPt ht; rw [hcase]
    · exact hPt
    · exact hPt
    · exact hactive t x hPt
    · exact hfree t x ht hPt (h.allocSw_live heq)
  | allocHw x hwOk =>
    obtain rfl := Option.some.inj (Option.ite_none_right_eq_some.mp hs).2
    cases hwOk with
    | true => exact hactive s x hP
    | false => exact hP
  | freeSw x =>
    obtain ⟨hx, hs⟩ := Option.ite_none_right_eq_some.mp hs
    obtain rfl := Option.some.inj hs
    exact hfree s x h hP hx
  | free x =>
    obtain ⟨hx, hs⟩ := Option.ite_none_right_eq_some.mp hs
    obtain rfl := Option.some.inj hs
    exact hfree s x h hP hx
  | roleStop r =>
    obtain rfl := Option.some.inj hs
    exact (roleFreeLoop_induct hback r _ h hP).2

/-- Every event keeps the invariant. -/
theorem step {e : Event} {s' : State} (h : Inv staNum s) (hs : Station.step s e = some s') :
    Inv staNum s' :=
  h.step_rule h (fun addr r ringOk _ => h.allocSw addr r ringOk) (fun _ _ ht => ht.setRole _)
    (fun _ x ht => ht.setActive x) (fun _ x ht _ _ _ => ht.setAddr x _)
    (fun _ _ ht _ hx => ht.recycle hx) hs

end Inv

/-- The invariant holds in every reachable state. -/
theorem run_inv {maxNum staNum : ℕ} {wifiRole : ℕ → WifiRole} {es : List Event} {s : State}
    (h : run step (init maxNum staNum wifiRole) es = some s) : Inv staNum s :=
  have hstep (s : State) (e : Event) (s' : State) (hinv : Inv staNum s) (_ : True)
      (hs : step s e = some s') : Inv staNum s' := hinv.step hs
  run_preserves (Inv staNum) hstep (inv_init maxNum staNum wifiRole)
    (guarded_of_forall (fun _ _ => trivial) _) h

end Rtl88x2cu.Station
