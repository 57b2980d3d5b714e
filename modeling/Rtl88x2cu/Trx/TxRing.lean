import Rtl88x2cu.Trx.UsbTx

/-!
# The TX rings are FIFO queues

For every ring, the requests that the transmit handler handles and those that the ring free
recycles are together the first requests the ring has accepted, in order and each once; the
others are in the ring, where nothing overwrites them.

The exception is the free of `phl_datapath_stop`. The handler frees deregistered rings itself at
its end, when it has no ring in hand; `phl_datapath_stop` does it without stopping the handler, so
that a request the handler has just prepared is recycled a second time.
-/

namespace Rtl88x2cu.Trx.UsbTx

variable {s s' : State} {k : RingId} {r : TxRing} {win : List XmitReq} {req : XmitReq}

/-! ## One ring -/

/-- What `core_idx` is, given the requests `win` after `phl_idx`; the running add may be ahead. -/
def CoreOk (add : AddPc) (k : RingId) (r : TxRing) (win : List XmitReq) : Prop :=
  match add with
  | .idle => r.coreIdx = (r.phlIdx + win.length) % maxPhlRingEntryNum
  | .decided k' _ =>
    r.coreIdx = (r.phlIdx + win.length) % maxPhlRingEntryNum ∧
      (k' = k → win.length + 1 < maxPhlRingEntryNum)
  | .advanced k' _ =>
    if k' = k then
      r.coreIdx = (r.phlIdx + (win.length + 1)) % maxPhlRingEntryNum ∧
        win.length + 1 < maxPhlRingEntryNum
    else r.coreIdx = (r.phlIdx + win.length) % maxPhlRingEntryNum

/-- The ring holds the requests `win`. -/
structure RingOk (add : AddPc) (k : RingId) (r : TxRing) (win : List XmitReq) : Prop where
  ring : Ring maxPhlRingEntryNum r.entry r.phlIdx
    ((r.phlIdx + win.length) % maxPhlRingEntryNum) win
  core : CoreOk add k r win

namespace RingOk

theorem toU16_phlIdx {add : AddPc} (h : RingOk add k r win) : toU16 r.phlIdx = r.phlIdx :=
  toU16_natCast (h.ring.read_lt.trans (by decide))

/-- While no call holds the lock, `core_idx` tells the number of requests. -/
theorem availRptr (h : RingOk .idle k r win) :
    phlCalcAvailRptr (toU16 r.phlIdx) r.coreIdx maxPhlRingEntryNum = win.length := by
  have hcore : r.coreIdx = _ := h.core
  rw [h.toU16_phlIdx, hcore]
  exact phlCalcAvailRptr_eq h.ring (by decide)

theorem availWptr (h : RingOk .idle k r win) :
    phlCalcAvailWptr (toU16 r.phlIdx) r.coreIdx maxPhlRingEntryNum =
      maxPhlRingEntryNum - 1 - win.length := by
  have hcore : r.coreIdx = _ := h.core
  rw [h.toU16_phlIdx, hcore]
  exact phlCalcAvailWptr_eq h.ring (by decide)

/-- A call that has found room. -/
theorem decide (h : RingOk .idle k r win) (k' : RingId) (req : XmitReq)
    (hroom : k' = k → win.length + 1 < maxPhlRingEntryNum) : RingOk (.decided k' req) k r win :=
  ⟨h.ring, h.core, hroom⟩

/-- `core_idx` is moved on. -/
theorem advance (h : RingOk (.decided k req) k r win) :
    RingOk (.advanced k req) k
      { r with coreIdx := (r.coreIdx + 1) % maxPhlRingEntryNum } win := by
  obtain ⟨hcore, hroom⟩ := h.core
  refine ⟨h.ring, ?_⟩
  show if k = k then _ else _
  rw [if_pos rfl]
  refine ⟨?_, hroom rfl⟩
  show (r.coreIdx + 1) % maxPhlRingEntryNum = _
  rw [hcore, cyclic_succ]

/-- The entry at the new `core_idx` is written. -/
theorem write (h : RingOk (.advanced k req) k r win) :
    RingOk .idle k { r with entry := Function.update r.entry r.coreIdx (some req) }
      (win ++ [req]) := by
  have hcore := h.core
  unfold CoreOk at hcore
  dsimp only at hcore
  rw [if_pos rfl] at hcore
  obtain ⟨hcore, hroom⟩ := hcore
  have hlen : (win ++ [req]).length = win.length + 1 := by
    rw [List.length_append, List.length_singleton]
  refine ⟨?_, ?_⟩
  · have hw : r.coreIdx =
        ((r.phlIdx + win.length) % maxPhlRingEntryNum + 1) % maxPhlRingEntryNum := by
      rw [hcore, cyclic_succ]
    show Ring _ (Function.update r.entry r.coreIdx (some req)) r.phlIdx
      ((r.phlIdx + (win ++ [req]).length) % maxPhlRingEntryNum) (win ++ [req])
    rw [hlen, ← hcore, hw]
    exact (h.ring.write_next hroom _).push hroom (Function.update_self _ _ _)
  · show r.coreIdx = (r.phlIdx + (win ++ [req]).length) % maxPhlRingEntryNum
    rw [hlen, hcore]

/-- A call on another ring. -/
theorem other {k' : RingId} (hne : k' ≠ k) (h : RingOk (.decided k' req) k r win) :
    RingOk (.advanced k' req) k r win :=
  ⟨h.ring, (if_neg hne).mpr h.core.1⟩

theorem idle_of_other {k' : RingId} (hne : k' ≠ k) (h : RingOk (.advanced k' req) k r win) :
    RingOk .idle k r win :=
  ⟨h.ring, (if_neg hne).mp h.core⟩

/-- The first request is in the entry after `phl_idx`. -/
theorem first {add : AddPc} (h : RingOk add k r (req :: win)) :
    r.entry ((r.phlIdx + 1) % maxPhlRingEntryNum) = some req :=
  h.ring.first

/-- `phl_idx` is moved over the first request. -/
theorem consume {add : AddPc} (h : RingOk add k r (req :: win)) :
    RingOk add k { r with phlIdx := (r.phlIdx + 1) % maxPhlRingEntryNum } win := by
  have hmove : ∀ n, ((r.phlIdx + 1) % maxPhlRingEntryNum + n) % maxPhlRingEntryNum =
      (r.phlIdx + (n + 1)) % maxPhlRingEntryNum := by
    intro n
    rw [Nat.mod_add_mod, Nat.add_assoc, Nat.add_comm 1 n]
  refine ⟨?_, ?_⟩
  · have hpop := h.ring.pop
    rwa [List.length_cons, ← hmove win.length] at hpop
  · have hcore := h.core
    unfold CoreOk at hcore ⊢
    dsimp only
    simp only [List.length_cons] at hcore
    cases add with
    | idle => rwa [hmove]
    | decided k' req' => exact ⟨by rw [hmove]; exact hcore.1,
        fun hk => by have := hcore.2 hk; omega⟩
    | advanced k' req' =>
      dsimp only at hcore ⊢
      rw [hmove, hmove]
      split
      · rename_i hk
        rw [if_pos hk] at hcore
        exact ⟨hcore.1, by omega⟩
      · rename_i hk
        rwa [if_neg hk] at hcore

end RingOk

/-! ## All rings -/

/-- The requests accepted and not recycled yet. -/
def unread (s : State) (k : RingId) : List XmitReq := (s.accepted k).drop (s.consumed k).length

/-- The request of the ring `k` that has been recycled, but that `phl_idx` has not passed. -/
def inHand (pc : Pc) (k : RingId) : List XmitReq :=
  match pc with
  | .prepared k' _ _ req _ _ => if k' = k then [req] else []
  | _ => []

/-- The rings the running handler has still to look at. -/
def held : Pc → List RingId
  | .idle => []
  | .next rest => rest.map Prod.fst
  | .loop k _ _ rest | .prepared k _ _ _ _ rest | .advance k _ _ _ rest | .leave k _ _ rest =>
    k :: rest.map Prod.fst

/-- `phl_next_idx` is the entry after `phl_idx`. -/
def NextOk (r : TxRing) : Prop := r.phlNextIdx = (r.phlIdx + 1) % maxPhlRingEntryNum

/-- The rings still to be handled have at least as many requests as were counted. -/
def RestOk (s : State) (rest : List (RingId × ℕ)) : Prop :=
  ∀ p ∈ rest, p.2 ≤ (unread s p.1).length ∧ NextOk (s.ring p.1)

/-- What the handler knows of the rings it holds. -/
def SnapOk (s : State) : Pc → Prop
  | .idle => True
  | .next rest | .leave _ _ _ rest => RestOk s rest
  | .loop k _ loc rest =>
    RestOk s rest ∧ loc.reqBusy ≤ (unread s k).length ∧
      (loc.reqBusy ≠ 0 → NextOk (s.ring k))
  | .prepared k _ loc _ rptr rest =>
    RestOk s rest ∧ loc.reqBusy ≤ (unread s k).length + 1 ∧ NextOk (s.ring k) ∧
      rptr = (s.ring k).phlNextIdx
  | .advance k _ loc rptr rest =>
    RestOk s rest ∧ loc.reqBusy ≤ (unread s k).length ∧ rptr = (s.ring k).phlIdx ∧
      rptr = (s.ring k).phlNextIdx

/-- The ring of the running add. -/
def adding : AddPc → Option RingId
  | .idle => none
  | .decided k _ | .advanced k _ => some k

/-- What holds of all rings between any two steps. -/
structure Inv (s : State) : Prop where
  /-- The recycled requests are the first ones. -/
  accepted_eq : ∀ k, s.accepted k = (s.consumed k).map Prod.fst ++ unread s k
  /-- The others are in the ring. -/
  ring : ∀ k, s.life k.ringList ≠ .freed →
    RingOk s.addPc k (s.ring k) (inHand s.pc k ++ unread s k)
  /-- A freed ring has none left. -/
  freed : ∀ k, s.life k.ringList = .freed → unread s k = []
  freeList : ∀ l ∈ s.tRingFreeList, s.life l = .deregistered
  add_live : ∀ k, adding s.addPc = some k → s.life k.ringList = .registered
  held_nodup : (held s.pc).Nodup
  /-- The handler uses no freed ring. -/
  held_live : ∀ k ∈ held s.pc, s.life k.ringList ≠ .freed
  snap : SnapOk s s.pc

theorem unread_eq {rest : List XmitReq}
    (h : s.accepted k = (s.consumed k).map Prod.fst ++ rest) : unread s k = rest := by
  unfold unread
  rw [h, ← List.length_map (f := Prod.fst)]
  exact List.drop_left

theorem inv_init (cfg : TxCfg) : Inv (init cfg) where
  accepted_eq := fun _ => rfl
  ring := fun _ _ => ⟨Ring.empty (show 0 < maxPhlRingEntryNum by decide), rfl⟩
  freed := fun _ h => absurd h (by simp [init])
  freeList := fun _ h => absurd h (by simp [init])
  add_live := fun _ h => absurd h (by simp [init, adding])
  held_nodup := List.nodup_nil
  held_live := fun _ h => absurd h (by simp [init, held])
  snap := trivial

/-- The handler does not mind what happens elsewhere, nor requests that are added. -/
theorem SnapOk.mono {pc : Pc} (h : SnapOk s pc)
    (hlen : ∀ k ∈ held pc, (unread s k).length ≤ (unread s' k).length)
    (hidx : ∀ k ∈ held pc, (s'.ring k).phlIdx = (s.ring k).phlIdx ∧
      (s'.ring k).phlNextIdx = (s.ring k).phlNextIdx) : SnapOk s' pc := by
  have hnext : ∀ k ∈ held pc, NextOk (s.ring k) → NextOk (s'.ring k) := by
    intro k hk hn
    unfold NextOk at hn ⊢
    rw [(hidx k hk).1, (hidx k hk).2, hn]
  have hrest : ∀ rest, (∀ p ∈ rest, p.1 ∈ held pc) → RestOk s rest → RestOk s' rest := by
    intro rest hheld hr p hp
    exact ⟨(hr p hp).1.trans (hlen _ (hheld p hp)), hnext _ (hheld p hp) (hr p hp).2⟩
  have hmem : ∀ (rest : List (RingId × ℕ)) (p), p ∈ rest → p.1 ∈ rest.map Prod.fst :=
    fun rest p hp => List.mem_map_of_mem hp
  cases pc with
  | idle => trivial
  | next rest => exact hrest rest (hmem rest) h
  | leave k buf loc rest =>
    exact hrest rest (fun p hp => List.mem_cons_of_mem _ (hmem rest p hp)) h
  | loop k buf loc rest =>
    have hk : k ∈ held (.loop k buf loc rest) := List.mem_cons_self
    exact ⟨hrest rest (fun p hp => List.mem_cons_of_mem _ (hmem rest p hp)) h.1,
      h.2.1.trans (hlen k hk), fun hb => hnext k hk (h.2.2 hb)⟩
  | prepared k buf loc req rptr rest =>
    have hk : k ∈ held (.prepared k buf loc req rptr rest) := List.mem_cons_self
    refine ⟨hrest rest (fun p hp => List.mem_cons_of_mem _ (hmem rest p hp)) h.1,
      h.2.1.trans (Nat.succ_le_succ (hlen k hk)), hnext k hk h.2.2.1, ?_⟩
    rw [(hidx k hk).2]
    exact h.2.2.2
  | advance k buf loc rptr rest =>
    have hk : k ∈ held (.advance k buf loc rptr rest) := List.mem_cons_self
    refine ⟨hrest rest (fun p hp => List.mem_cons_of_mem _ (hmem rest p hp)) h.1,
      h.2.1.trans (hlen k hk), ?_, ?_⟩
    · rw [(hidx k hk).1]
      exact h.2.2.1
    · rw [(hidx k hk).2]
      exact h.2.2.2

/-! ## The core's calls -/

theorem Inv.addTxReq (h : Inv s) (hs : addTxReq s k req = some s') : Inv s' := by
  unfold UsbTx.addTxReq at hs
  split at hs
  · cases hs
  rename_i hidle
  rw [not_not] at hidle
  split at hs
  · obtain rfl := Option.some.inj hs
    exact ⟨h.accepted_eq, h.ring, h.freed, h.freeList, h.add_live, h.held_nodup, h.held_live,
      h.snap⟩
  rename_i hlive
  rw [not_not] at hlive
  have hring : ∀ k, s.life k.ringList ≠ .freed →
      RingOk .idle k (s.ring k) (inHand s.pc k ++ unread s k) := by
    intro k' hk'
    have := h.ring k' hk'
    rwa [hidle] at this
  split at hs
  · rename_i hroom
    obtain rfl := Option.some.inj hs
    rw [(hring k (by rw [hlive]; decide)).availWptr] at hroom
    refine ⟨h.accepted_eq, fun k' hk' => (hring k' hk').decide k req ?_, h.freed, h.freeList, ?_,
      h.held_nodup,
      h.held_live, h.snap⟩
    · rintro rfl
      omega
    · rintro k' hk'
      obtain rfl := Option.some.inj hk'
      exact hlive
  · obtain rfl := Option.some.inj hs
    exact ⟨h.accepted_eq, h.ring, h.freed, h.freeList, h.add_live, h.held_nodup, h.held_live,
      h.snap⟩

/-- The write of the entry appends the request to the contents of its ring. -/
theorem unread_add (h : Inv s) (k k' : RingId) (req : XmitReq) :
    (Function.update s.accepted k (s.accepted k ++ [req]) k').drop (s.consumed k').length =
      if k' = k then unread s k ++ [req] else unread s k' := by
  by_cases hk : k' = k
  · subst hk
    rw [Function.update_self, if_pos rfl, h.accepted_eq, List.append_assoc,
      ← List.length_map (f := Prod.fst)]
    exact List.drop_left
  · rw [Function.update_of_ne hk, if_neg hk]
    rfl

theorem Inv.addStep (h : Inv s) (hs : addStep s = some s') : Inv s' := by
  unfold UsbTx.addStep at hs
  cases hadd : s.addPc with
  | idle =>
    rw [hadd] at hs
    cases hs
  | decided k req =>
    rw [hadd] at hs
    obtain rfl := Option.some.inj hs
    have hlive := h.add_live
    rw [hadd] at hlive
    refine ⟨h.accepted_eq, fun k' hk' => ?_, h.freed, h.freeList, hlive, h.held_nodup, h.held_live,
      h.snap.mono (fun _ _ => le_rfl) fun k' _ => ?_⟩
    · have hring := h.ring k' hk'
      rw [hadd] at hring
      show RingOk (.advanced k req) k' (Function.update s.ring k _ k') _
      by_cases hk : k' = k
      · subst hk
        rw [Function.update_self]
        exact hring.advance
      · rw [Function.update_of_ne hk]
        exact hring.other (Ne.symm hk)
    · by_cases hk : k' = k
      · subst hk
        simp only [Function.update_self, and_self]
      · simp only [Function.update_of_ne hk, and_self]
  | advanced k req =>
    rw [hadd] at hs
    obtain rfl := Option.some.inj hs
    have hlive : s.life k.ringList = .registered := h.add_live k (by rw [hadd]; rfl)
    have hun (k' : RingId) := unread_add h k k' req
    refine ⟨fun k' => ?_, fun k' hk' => ?_, fun k' hk' => ?_, h.freeList, ?_, h.held_nodup,
      h.held_live,
      h.snap.mono (fun k' _ => ?_) fun k' _ => ?_⟩
    · show Function.update s.accepted k (s.accepted k ++ [req]) k' = _ ++
        (Function.update s.accepted k (s.accepted k ++ [req]) k').drop (s.consumed k').length
      rw [hun]
      by_cases hk : k' = k
      · subst hk
        rw [Function.update_self, if_pos rfl, ← List.append_assoc, ← h.accepted_eq]
      · rw [Function.update_of_ne hk, if_neg hk]
        exact h.accepted_eq k'
    · have hring := h.ring k' hk'
      rw [hadd] at hring
      show RingOk .idle k' (Function.update s.ring k _ k')
        (inHand s.pc k' ++ (Function.update s.accepted k _ k').drop (s.consumed k').length)
      rw [hun]
      by_cases hk : k' = k
      · subst hk
        rw [Function.update_self, if_pos rfl, ← List.append_assoc]
        exact hring.write
      · rw [Function.update_of_ne hk, if_neg hk]
        exact hring.idle_of_other (Ne.symm hk)
    · have hne : k' ≠ k := by
        rintro rfl
        rw [hlive] at hk'
        cases hk'
      show (Function.update s.accepted k _ k').drop (s.consumed k').length = []
      rw [hun, if_neg hne]
      exact h.freed k' hk'
    · rintro k' hk'
      cases hk'
    · show _ ≤ ((Function.update s.accepted k _ k').drop (s.consumed k').length).length
      rw [hun]
      by_cases hk : k' = k
      · subst hk
        rw [if_pos rfl, List.length_append]
        exact Nat.le_add_right _ _
      · rw [if_neg hk]
    · by_cases hk : k' = k
      · subst hk
        simp only [Function.update_self, and_self]
      · simp only [Function.update_of_ne hk, and_self]

theorem Inv.deregisterTxRing {l : ℕ} (h : Inv s) (hs : deregisterTxRing s l = some s') :
    Inv s' := by
  unfold UsbTx.deregisterTxRing at hs
  split at hs
  · cases hs
  rename_i hcond
  rw [not_or, not_not, not_not] at hcond
  obtain rfl := Option.some.inj hs
  have hlife : ∀ l', Function.update s.life l .deregistered l' = .freed ↔ s.life l' = .freed := by
    intro l'
    by_cases hl : l' = l
    · subst hl
      rw [Function.update_self, hcond.2]
      decide
    · rw [Function.update_of_ne hl]
  refine ⟨h.accepted_eq, fun k hk => h.ring k (mt (hlife _).mpr hk),
    fun k hk => h.freed k ((hlife _).mp hk), fun l' hl' => ?_, fun k hk => ?_, h.held_nodup,
    fun k hk => mt (hlife _).mp (h.held_live k hk), h.snap⟩
  · show Function.update s.life l .deregistered l' = .deregistered
    by_cases hl : l' = l
    · rw [hl, Function.update_self]
    · rw [Function.update_of_ne hl]
      rcases List.mem_append.mp hl' with hmem | hmem
      · exact h.freeList l' hmem
      · exact absurd (List.mem_singleton.mp hmem) hl
  · rw [hcond.1] at hk
    cases hk

/-! ## Freeing -/

/-- `core_idx` of a ring that no call is adding to. -/
theorem RingOk.coreIdx_eq {add : AddPc} (h : RingOk add k r win) (hadd : adding add ≠ some k) :
    r.coreIdx = (r.phlIdx + win.length) % maxPhlRingEntryNum := by
  have hcore := h.core
  unfold CoreOk at hcore
  cases add with
  | idle => exact hcore
  | decided k' req => exact hcore.1
  | advanced k' req =>
    have hne : k' ≠ k := fun heq => hadd (congrArg some heq)
    exact (if_neg hne).mp hcore

/-- The loop of the free visits the contents of the ring. -/
theorem freeLoop_eq {e : ℕ → Option XmitReq} (win : List XmitReq) :
    ∀ {fuel rptr : ℕ}, Ring maxPhlRingEntryNum e rptr r.coreIdx win → r.entry = e →
      win.length ≤ fuel → freeLoop r fuel rptr = win := by
  induction win with
  | nil =>
    intro fuel rptr h _ _
    have hcore : rptr = r.coreIdx := by
      rw [h.write_eq, List.length_nil, Nat.add_zero, Nat.mod_eq_of_lt h.read_lt]
    cases fuel with
    | zero => rfl
    | succ fuel => rw [freeLoop, if_pos hcore]
  | cons req win ih =>
    intro fuel rptr h he hfuel
    cases fuel with
    | zero => simp at hfuel
    | succ fuel =>
      have hne : rptr ≠ r.coreIdx := by
        -- a full turn would be needed to come back
        intro heq
        have hw := h.write_eq
        rw [← heq] at hw
        have hlt := h.length_lt
        rw [List.length_cons] at hlt hw
        have hzero : (rptr + 0) % maxPhlRingEntryNum = (rptr + (win.length + 1)) %
            maxPhlRingEntryNum := by
          rw [← hw, Nat.add_zero, Nat.mod_eq_of_lt h.read_lt]
        have := cyclic_injective (by omega) hlt hzero
        omega
      have hfirst : r.entry (nextPtr rptr) = some req := by
        rw [nextPtr_eq h.read_lt, he]
        exact h.first
      have hpop := h.pop
      rw [← nextPtr_eq h.read_lt] at hpop
      rw [freeLoop, if_neg hne, hfirst]
      show req :: freeLoop r fuel (nextPtr rptr) = req :: win
      rw [ih hpop he (Nat.le_of_succ_le_succ hfuel)]

theorem freeRing_eq {add : AddPc} (h : RingOk add k r win) (hadd : adding add ≠ some k) :
    freeRing r = win := by
  unfold freeRing
  rw [h.toU16_phlIdx]
  have hring := h.ring
  rw [← h.coreIdx_eq hadd] at hring
  exact freeLoop_eq win hring rfl hring.length_lt.le

theorem inHand_eq_nil {pc : Pc} (hk : k ∉ held pc) : inHand pc k = [] := by
  cases pc with
  | prepared k' buf loc req rptr rest =>
    have hne : k' ≠ k := by
      rintro rfl
      exact hk List.mem_cons_self
    exact if_neg hne
  | idle | next | loop | advance | leave => rfl

/-- A free of rings that the handler does not hold. -/
theorem Inv.freeDeferredTxRing (h : Inv s)
    (hok : ∀ k ∈ held s.pc, k.ringList ∉ s.tRingFreeList) :
    Inv (freeDeferredTxRing s) := by
  have hkeep : ∀ k : RingId, k.ringList ∉ s.tRingFreeList →
      unread (UsbTx.freeDeferredTxRing s) k = unread s k := by
    intro k hk
    show (s.accepted k).drop (ite _ _ _ : List _).length = _
    rw [if_neg hk]
    rfl
  -- a ring that is freed has all its requests recycled
  have hfree : ∀ k : RingId, k.ringList ∈ s.tRingFreeList → freeRing (s.ring k) = unread s k := by
    intro k hk
    have hring := h.ring k (by rw [h.freeList _ hk]; decide)
    rw [inHand_eq_nil fun hheld => hok k hheld hk, List.nil_append] at hring
    refine freeRing_eq hring fun hadd => ?_
    have := h.add_live k hadd
    rw [h.freeList _ hk] at this
    cases this
  have hacc : ∀ k : RingId, k.ringList ∈ s.tRingFreeList →
      s.accepted k = ((UsbTx.freeDeferredTxRing s).consumed k).map Prod.fst ++ [] := by
    intro k hk
    show _ = (ite _ _ _ : List (XmitReq × Consumer)).map Prod.fst ++ []
    rw [if_pos hk, hfree k hk, List.append_nil, List.map_append, List.map_map]
    show _ = _ ++ (unread s k).map id
    rw [List.map_id]
    exact h.accepted_eq k
  have hempty : ∀ k : RingId, k.ringList ∈ s.tRingFreeList →
      unread (UsbTx.freeDeferredTxRing s) k = [] := fun k hk => unread_eq (hacc k hk)
  have hlife : ∀ k : RingId, (UsbTx.freeDeferredTxRing s).life k.ringList = .freed ↔
      k.ringList ∈ s.tRingFreeList ∨ s.life k.ringList = .freed := by
    intro k
    show ite _ _ _ = _ ↔ _
    by_cases hd : k.ringList ∈ s.tRingFreeList
    · simp [hd]
    · simp [hd]
  refine ⟨fun k => ?_, fun k hk => ?_, fun k hk => ?_, fun l hl => absurd hl List.not_mem_nil,
    fun k hk => ?_, h.held_nodup, fun k hk => ?_, h.snap.mono (fun k hk => ?_) fun k _ =>
      ⟨rfl, rfl⟩⟩
  · by_cases hd : k.ringList ∈ s.tRingFreeList
    · rw [hempty k hd]
      exact hacc k hd
    · rw [hkeep k hd]
      show s.accepted k = (ite _ _ _ : List _).map _ ++ _
      rw [if_neg hd]
      exact h.accepted_eq k
  · rw [Ne, hlife, not_or] at hk
    rw [hkeep k hk.1]
    exact h.ring k hk.2
  · rcases (hlife k).mp hk with hd | hf
    · exact hempty k hd
    · have hk' : k.ringList ∉ s.tRingFreeList := by
        intro hmem
        rw [h.freeList _ hmem] at hf
        cases hf
      rw [hkeep k hk']
      exact h.freed k hf
  · have hreg := h.add_live k hk
    have hk' : k.ringList ∉ s.tRingFreeList := by
      intro hmem
      rw [h.freeList _ hmem] at hreg
      cases hreg
    show ite _ _ _ = _
    rw [if_neg hk', hreg]
  · rw [Ne, hlife, not_or]
    exact ⟨hok k hk, h.held_live k hk⟩
  · rw [hkeep k (hok k hk)]

/-! ## The handler -/

/-- A step of the handler that touches no ring. -/
theorem Inv.goto (h : Inv s) (hring : s'.ring = s.ring) (hlife : s'.life = s.life)
    (hfree : s'.tRingFreeList = s.tRingFreeList) (hadd : s'.addPc = s.addPc)
    (hacc : s'.accepted = s.accepted)
    (hcons : s'.consumed = s.consumed) (hhand : inHand s'.pc = inHand s.pc)
    (hheld : (held s'.pc).Sublist (held s.pc)) (hsnap : SnapOk s s'.pc) : Inv s' := by
  have hun : ∀ k, unread s' k = unread s k := by
    intro k
    unfold unread
    rw [hacc, hcons]
  refine ⟨fun k => ?_, fun k hk => ?_, fun k hk => ?_, fun l hl => ?_, fun k hk => ?_,
    h.held_nodup.sublist hheld, fun k hk => ?_,
      hsnap.mono (fun k _ => (congrArg List.length (hun k)).ge) fun k _ => ?_⟩
  · rw [hacc, hcons, hun]
    exact h.accepted_eq k
  · rw [hlife] at hk
    rw [hadd, hring, hhand, hun]
    exact h.ring k hk
  · rw [hlife] at hk
    rw [hun]
    exact h.freed k hk
  · rw [hfree] at hl
    rw [hlife]
    exact h.freeList l hl
  · rw [hadd] at hk
    rw [hlife]
    exact h.add_live k hk
  · rw [hlife]
    exact h.held_live k (hheld.subset hk)
  · rw [hring]
    exact ⟨rfl, rfl⟩

theorem Inv.checkRings {order : List RingId} (h : Inv s) (hs : checkRings s order = some s') :
    Inv s' := by
  unfold UsbTx.checkRings at hs
  split at hs
  swap
  · cases hs
  rename_i hcond
  obtain ⟨hidle, hnodup, hlive⟩ := hcond
  cases hpc : s.pc with
  | idle =>
    rw [hpc] at hs
    obtain rfl := Option.some.inj hs
    have hring : ∀ k, s.life k.ringList ≠ .freed → RingOk .idle k (s.ring k) (unread s k) := by
      intro k hk
      have := h.ring k hk
      rwa [hidle, hpc] at this
    have hheld : held (.next (order.map fun k => (k, phlCalcAvailRptr (toU16 (s.ring k).phlIdx)
        (s.ring k).coreIdx maxPhlRingEntryNum))) = order := by
      show (order.map _).map Prod.fst = order
      rw [List.map_map]
      exact List.map_id order
    have hnotfreed : ∀ k ∈ order, s.life k.ringList ≠ .freed := by
      intro k hk
      rw [(hlive k hk).1]
      decide
    refine ⟨h.accepted_eq, fun k hk => ?_, h.freed, h.freeList, h.add_live, ?_, fun k hk => ?_, ?_⟩
    · show RingOk s.addPc k (ite _ _ _) (unread s k)
      rw [hidle]
      split
      · exact ⟨(hring k hk).ring, (hring k hk).core⟩
      · exact hring k hk
    · rw [hheld]
      exact hnodup
    · rw [hheld] at hk
      exact hnotfreed k hk
    · intro p hp
      obtain ⟨k, hk, rfl⟩ := List.mem_map.mp hp
      have hk' := hring k (hnotfreed k hk)
      refine ⟨hk'.availRptr.le, ?_⟩
      show NextOk (ite _ _ _)
      rw [if_pos hk]
      show nextPtr (toU16 (s.ring k).phlIdx) = _
      rw [hk'.toU16_phlIdx]
      exact nextPtr_eq hk'.ring.read_lt
  | next | loop | prepared | advance | leave =>
    rw [hpc] at hs
    cases hs

theorem Inv.nextRing {cfg : TxCfg} {n : ℕ} {rest : List (RingId × ℕ)} (h : Inv s)
    (hpc : s.pc = .next ((k, n) :: rest)) : Inv (nextRing cfg s k n rest) := by
  have hsnap := h.snap
  rw [hpc] at hsnap
  obtain ⟨hk, hrest⟩ := List.forall_mem_cons.mp hsnap
  -- without a buffer the ring is left for the next run
  have hskip : ∀ {t : State}, t.ring = s.ring → t.life = s.life →
      t.tRingFreeList = s.tRingFreeList → t.addPc = s.addPc →
      t.accepted = s.accepted → t.consumed = s.consumed → t.pc = .next rest → Inv t := by
    intro t hr hl hf ha hacc hc ht
    refine h.goto hr hl hf ha hacc hc ?_ ?_ ?_
    · rw [ht, hpc]
      rfl
    · rw [ht, hpc]
      exact List.sublist_cons_self _ _
    · rw [ht]
      exact hrest
  have hstart : ∀ {t : State} {buf : UsbBuf} {loc : Loc}, t.ring = s.ring → t.life = s.life →
      t.tRingFreeList = s.tRingFreeList → t.addPc = s.addPc → t.accepted = s.accepted →
      t.consumed = s.consumed →
      t.pc = .loop k buf loc rest → loc.reqBusy = n → Inv t := by
    intro t buf loc hr hl hf ha hacc hc ht hn
    refine h.goto hr hl hf ha hacc hc ?_ ?_ ?_
    · rw [ht, hpc]
      rfl
    · rw [ht, hpc]
      exact List.Sublist.refl _
    · rw [ht]
      exact ⟨hrest, hn.le.trans hk.1, fun _ => hk.2⟩
  unfold UsbTx.nextRing
  dsimp only
  split <;> split
  · exact hskip rfl rfl rfl rfl rfl rfl rfl
  · exact hstart rfl rfl rfl rfl rfl rfl rfl rfl
  · exact hskip rfl rfl rfl rfl rfl rfl rfl
  · exact hstart rfl rfl rfl rfl rfl rfl rfl rfl

/-- A request of an aggregate is put behind the previous one, any other at the start. -/
theorem beforePrepare_cases {cfg : TxCfg} {loc loc' : Loc}
    (h : beforePrepare cfg loc req = some loc') :
    (cfg.aggregation = true ∧ req.type = .data ∧ loc' = { alignTx loc with type := req.type }) ∨
      (¬ (cfg.aggregation = true ∧ req.type = .data) ∧ loc' = { loc with type := req.type }) := by
  unfold beforePrepare at h
  split at h
  · cases h
  split at h
  · rename_i hagg
    split at h
    · cases h
    · exact .inl ⟨hagg.1, hagg.2, (Option.some.inj h).symm⟩
  · rename_i hagg
    exact .inr ⟨hagg, (Option.some.inj h).symm⟩

theorem beforePrepare_reqBusy {cfg : TxCfg} {loc loc' : Loc}
    (h : beforePrepare cfg loc req = some loc') : loc'.reqBusy = loc.reqBusy := by
  obtain ⟨-, -, rfl⟩ | ⟨-, rfl⟩ := beforePrepare_cases h
  · rfl
  · rfl

theorem prepareTxUsb_reqBusy (loc : Loc) (req : XmitReq) (ofst : Bool) (fillWd : Option ℕ) :
    (prepareTxUsb loc req ofst fillWd).reqBusy = loc.reqBusy := by
  cases fillWd <;> rfl

theorem afterPrepare_reqBusy (cfg : TxCfg) (loc : Loc) :
    (afterPrepare cfg loc).1.reqBusy = loc.reqBusy := by
  unfold afterPrepare
  dsimp only
  split
  · rfl
  split
  · split <;> rfl
  · rfl

/-- What one pass of the loop can do: leave it without preparing a request, leave it after a
preparation that failed, or prepare the request at `phl_next_idx`. -/
theorem loopStep_cases (cfg : TxCfg) (s : State) (k : RingId) (buf : UsbBuf) (loc : Loc)
    (rest : List (RingId × ℕ)) (fillWd : Option ℕ) :
    (∃ ofst, loopStep cfg s k buf loc rest fillWd =
      { s with usbPktOfst := ofst, pc := .leave k buf loc rest }) ∨
    (∃ req ofst loc', loc.reqBusy ≠ 0 ∧
      (s.ring k).entry (toU16 (s.ring k).phlNextIdx) = some req ∧
      beforePrepare cfg loc req = some loc' ∧
      (prepareTxUsb loc' req (pktOfstOf s loc req) fillWd).pstatus ≠ .success ∧
      loopStep cfg s k buf loc rest fillWd =
        { s with
          usbPktOfst := ofst
          pc := .leave k buf (prepareTxUsb loc' req (pktOfstOf s loc req) fillWd) rest }) ∨
    (∃ req ofst loc', loc.reqBusy ≠ 0 ∧
      (s.ring k).entry (toU16 (s.ring k).phlNextIdx) = some req ∧
      beforePrepare cfg loc req = some loc' ∧
      (prepareTxUsb loc' req (pktOfstOf s loc req) fillWd).pstatus = .success ∧
      loopStep cfg s k buf loc rest fillWd =
        { s with
          usbPktOfst := ofst
          pc := .prepared k buf (prepareTxUsb loc' req (pktOfstOf s loc req) fillWd) req
            (toU16 (s.ring k).phlNextIdx) rest
          consumed := Function.update s.consumed k (s.consumed k ++ [(req, .handler)]) }) := by
  unfold loopStep
  split
  · exact .inl ⟨s.usbPktOfst, rfl⟩
  rename_i hbusy
  split
  · exact .inl ⟨s.usbPktOfst, rfl⟩
  rename_i req hentry
  dsimp only
  split
  · exact .inl ⟨_, rfl⟩
  rename_i loc' hbefore
  split
  · rename_i hok
    exact .inr (.inr ⟨req, _, loc', hbusy, hentry, hbefore, hok, rfl⟩)
  · rename_i hfail
    exact .inr (.inl ⟨req, _, loc', hbusy, hentry, hbefore, hfail, rfl⟩)

/-- The entry at `phl_next_idx` holds the first unread request. -/
theorem Inv.unread_cons (h : Inv s) (hlive : s.life k.ringList ≠ .freed)
    (hhand : inHand s.pc k = []) (hnext : NextOk (s.ring k)) (hne : unread s k ≠ [])
    (hentry : (s.ring k).entry (toU16 (s.ring k).phlNextIdx) = some req) :
    toU16 (s.ring k).phlNextIdx = (s.ring k).phlNextIdx ∧ ∃ l, unread s k = req :: l := by
  have hring := h.ring k hlive
  rw [hhand, List.nil_append] at hring
  obtain ⟨a, l, hal⟩ := List.exists_cons_of_ne_nil hne
  rw [hal] at hring
  have hlt : (s.ring k).phlNextIdx < maxPhlRingEntryNum := by
    rw [hnext]
    exact Nat.mod_lt _ (by decide)
  have htoU16 := toU16_natCast (hlt.trans (by decide))
  rw [htoU16, hnext, hring.first] at hentry
  obtain rfl := Option.some.inj hentry
  exact ⟨htoU16, l, hal⟩

theorem Inv.loopStep {cfg : TxCfg} {buf : UsbBuf} {loc : Loc} {rest : List (RingId × ℕ)}
    {fillWd : Option ℕ} (h : Inv s) (hpc : s.pc = .loop k buf loc rest) :
    Inv (loopStep cfg s k buf loc rest fillWd) := by
  have hsnap := h.snap
  rw [hpc] at hsnap
  obtain ⟨hrest, hbusy, hnext⟩ := hsnap
  have hheld := h.held_nodup
  have hlive : s.life k.ringList ≠ .freed := h.held_live k (by rw [hpc]; exact List.mem_cons_self)
  have hhand : inHand s.pc = fun _ => [] := by rw [hpc]; rfl
  have hleave : ∀ ofst loc', Inv { s with usbPktOfst := ofst, pc := .leave k buf loc' rest } := by
    intro ofst loc'
    refine h.goto rfl rfl rfl rfl rfl rfl ?_ ?_ hrest
    · rw [hpc]
      rfl
    · rw [hpc]
      exact List.Sublist.refl _
  obtain ⟨ofst, heq⟩ | ⟨req, ofst, loc', -, -, -, -, heq⟩ |
    ⟨req, ofst, loc', hbusy0, hentry, hbefore, -, heq⟩ :=
    loopStep_cases cfg s k buf loc rest fillWd
  · rw [heq]
    exact hleave _ _
  · rw [heq]
    exact hleave _ _
  · have hne : unread s k ≠ [] := by
      refine List.ne_nil_of_length_pos ?_
      omega
    obtain ⟨htoU16, l, hl⟩ :=
      h.unread_cons hlive (congrFun hhand k) (hnext hbusy0) hne hentry
    have hlen := congrArg List.length hl
    rw [heq, htoU16]
    set t : State := { s with
      usbPktOfst := ofst
      pc := .prepared k buf (prepareTxUsb loc' req (pktOfstOf s loc req) fillWd) req
        (s.ring k).phlNextIdx rest
      consumed := Function.update s.consumed k (s.consumed k ++ [(req, .handler)]) } with ht
    have hacc : s.accepted k = (t.consumed k).map Prod.fst ++ l := by
      show _ = (Function.update s.consumed k _ k).map Prod.fst ++ l
      rw [Function.update_self, List.map_append, List.append_assoc]
      show _ = _ ++ (req :: l)
      rw [← hl]
      exact h.accepted_eq k
    have hunk : unread t k = l := unread_eq hacc
    have hother : ∀ k', k' ≠ k → t.consumed k' = s.consumed k' :=
      fun k' hk' => Function.update_of_ne hk' _ _
    have hun : ∀ k', k' ≠ k → unread t k' = unread s k' := by
      intro k' hk'
      unfold unread
      rw [hother k' hk']
    refine ⟨fun k' => ?_, fun k' hk' => ?_, fun k' hk' => ?_, h.freeList, h.add_live, ?_,
      fun k' hk' => ?_, ?_⟩
    · by_cases hk : k' = k
      · subst hk
        rw [hunk]
        exact hacc
      · rw [hun k' hk, hother k' hk]
        exact h.accepted_eq k'
    · have hring := h.ring k' hk'
      rw [hhand, List.nil_append] at hring
      show RingOk s.addPc k' (s.ring k') ((if k = k' then [req] else []) ++ unread t k')
      by_cases hk : k' = k
      · subst hk
        rw [if_pos rfl, hunk]
        rwa [hl] at hring
      · rw [if_neg (Ne.symm hk), hun k' hk]
        exact hring
    · have hne : k' ≠ k := by
        rintro rfl
        exact hlive hk'
      rw [hun k' hne]
      exact h.freed k' hk'
    · rw [hpc] at hheld
      exact hheld
    · refine h.held_live k' ?_
      rw [hpc]
      exact hk'
    · refine ⟨fun p hp => ?_, ?_, hnext hbusy0, rfl⟩
      · have hpk : p.1 ≠ k := by
          rintro rfl
          rw [hpc] at hheld
          exact (List.nodup_cons.mp hheld).1 (List.mem_map_of_mem hp)
        rw [hun p.1 hpk]
        exact hrest p hp
      · rw [hunk, prepareTxUsb_reqBusy, beforePrepare_reqBusy hbefore]
        rw [List.length_cons] at hlen
        omega

/-- The rings other than the current one, when only that one changes. -/
theorem RestOk.update {rest : List (RingId × ℕ)} (h : RestOk s rest)
    (hk : k ∉ rest.map Prod.fst) (hring : s'.ring = Function.update s.ring k r)
    (hun : ∀ k, unread s' k = unread s k) : RestOk s' rest := by
  intro p hp
  have hne : p.1 ≠ k := by
    rintro rfl
    exact hk (List.mem_map_of_mem hp)
  rw [hun, hring, Function.update_of_ne hne]
  exact h p hp

theorem Inv.setPhlIdx {buf : UsbBuf} {loc : Loc} {rptr : ℕ} {rest : List (RingId × ℕ)}
    (h : Inv s) (hpc : s.pc = .prepared k buf loc req rptr rest) :
    Inv (setPhlIdx s k buf loc rptr rest) := by
  have hsnap := h.snap
  have hheld := h.held_nodup
  rw [hpc] at hsnap hheld
  obtain ⟨hrest, hbusy, hnext, rfl⟩ := hsnap
  have hk := (List.nodup_cons.mp hheld).1
  refine ⟨h.accepted_eq, fun k' hk' => ?_, h.freed, h.freeList, h.add_live, hheld, fun k' hk' => ?_,
    hrest.update hk rfl fun _ => rfl, ?_, ?_, ?_⟩
  · have hring := h.ring k' hk'
    rw [hpc] at hring
    show RingOk s.addPc k' (Function.update s.ring k _ k') (unread s k')
    by_cases heq : k' = k
    · subst heq
      simp only [inHand, if_pos, List.singleton_append] at hring
      rw [Function.update_self, hnext]
      exact hring.consume
    · simp only [inHand, if_neg (Ne.symm heq), List.nil_append] at hring
      rw [Function.update_of_ne heq]
      exact hring
  · refine h.held_live k' ?_
    rw [hpc]
    exact hk'
  · show loc.reqBusy - 1 ≤ (unread s k).length
    omega
  · show _ = (Function.update s.ring k _ k).phlIdx
    rw [Function.update_self]
  · show _ = (Function.update s.ring k _ k).phlNextIdx
    rw [Function.update_self]

theorem Inv.advanceStep {cfg : TxCfg} {buf : UsbBuf} {loc : Loc} {rptr : ℕ}
    {rest : List (RingId × ℕ)} (h : Inv s) (hpc : s.pc = .advance k buf loc rptr rest) :
    Inv (advanceStep cfg s k buf loc rptr rest) := by
  have hsnap := h.snap
  have hheld := h.held_nodup
  have hlive := h.held_live
  rw [hpc] at hsnap hheld hlive
  obtain ⟨hrest, hbusy, hphl, hnext⟩ := hsnap
  have hhand : inHand s.pc = fun _ => [] := by rw [hpc]; rfl
  unfold UsbTx.advanceStep
  split
  · refine h.goto rfl rfl rfl rfl rfl rfl hhand.symm ?_ hrest
    rw [hpc]
    exact List.Sublist.refl _
  split
  · refine ⟨h.accepted_eq, fun k' hk' => ?_, h.freed, h.freeList, h.add_live, hheld, hlive,
      hrest.update (List.nodup_cons.mp hheld).1 rfl fun _ => rfl, ?_, fun _ => ?_⟩
    · have hring := h.ring k' hk'
      rw [hhand] at hring
      show RingOk s.addPc k' (Function.update s.ring k _ k') (unread s k')
      by_cases heq : k' = k
      · subst heq
        rw [Function.update_self]
        exact ⟨hring.ring, hring.core⟩
      · rw [Function.update_of_ne heq]
        exact hring
    · rw [afterPrepare_reqBusy]
      exact hbusy
    · have hlt := (h.ring k (hlive k List.mem_cons_self)).ring.read_lt
      show NextOk (Function.update s.ring k _ k)
      rw [Function.update_self]
      show (if maxPhlRingEntryNum ≤ rptr + 1 then 0 else (s.ring k).phlNextIdx + 1) =
        ((s.ring k).phlIdx + 1) % maxPhlRingEntryNum
      rw [← nextPtr_eq hlt, ← hnext, hphl]
      rfl
  · rename_i hzero
    rw [not_not] at hzero
    refine h.goto rfl rfl rfl rfl rfl rfl hhand.symm ?_ ⟨hrest, ?_, fun hne => ?_⟩
    · rw [hpc]
      exact List.Sublist.refl _
    · rw [afterPrepare_reqBusy]
      exact hbusy
    · rw [afterPrepare_reqBusy] at hne
      exact absurd hzero hne

theorem Inv.leaveStep {buf : UsbBuf} {loc : Loc} {rest : List (RingId × ℕ)} {urb : Bool}
    (h : Inv s) (hpc : s.pc = .leave k buf loc rest) : Inv (leaveStep s k buf loc rest urb) := by
  have hsnap := h.snap
  rw [hpc] at hsnap
  have hgo : ∀ {t : State}, t.ring = s.ring → t.life = s.life →
      t.tRingFreeList = s.tRingFreeList → t.addPc = s.addPc →
      t.accepted = s.accepted → t.consumed = s.consumed → t.pc = .next rest → Inv t := by
    intro t hr hl hf ha hacc hc ht
    refine h.goto hr hl hf ha hacc hc ?_ ?_ ?_
    · rw [ht, hpc]
      rfl
    · rw [ht, hpc]
      exact List.sublist_cons_self _ _
    · rw [ht]
      exact hsnap
  unfold UsbTx.leaveStep
  split
  · exact hgo rfl rfl rfl rfl rfl rfl rfl
  split
  · exact hgo rfl rfl rfl rfl rfl rfl rfl
  split
  · exact hgo rfl rfl rfl rfl rfl rfl rfl
  · exact hgo rfl rfl rfl rfl rfl rfl rfl

theorem Inv.handlerStep {cfg : TxCfg} {fillWd : Option ℕ} {urb : Bool} (h : Inv s)
    (hs : handlerStep cfg s fillWd urb = some s') : Inv s' := by
  unfold UsbTx.handlerStep at hs
  split at hs
  · cases hs
  · rename_i hpc
    obtain rfl := Option.some.inj hs
    have hfree := h.freeDeferredTxRing (fun k hk => by rw [hpc] at hk; cases hk)
    refine hfree.goto rfl rfl rfl rfl rfl rfl ?_ (List.nil_sublist _) trivial
    show inHand .idle = inHand s.pc
    rw [hpc]
    rfl
  · rename_i hpc
    split at hs
    · cases hs
    · obtain rfl := Option.some.inj hs
      exact h.nextRing hpc
  · rename_i hpc
    split at hs
    · cases hs
    · obtain rfl := Option.some.inj hs
      exact h.loopStep hpc
  · rename_i hpc
    split at hs
    · cases hs
    · obtain rfl := Option.some.inj hs
      exact h.setPhlIdx hpc
  · rename_i hpc
    split at hs
    · cases hs
    · obtain rfl := Option.some.inj hs
      exact h.advanceStep hpc
  · rename_i hpc
    split at hs
    · cases hs
    · obtain rfl := Option.some.inj hs
      exact h.leaveStep hpc

/-! ## Runs -/

/-- `phl_datapath_stop` frees no ring that the running handler holds. -/
def FreeOk (s : State) : Event → Prop
  | .datapathStop => ∀ k ∈ held s.pc, k.ringList ∉ s.tRingFreeList
  | _ => True

instance (s : State) (e : Event) : Decidable (FreeOk s e) :=
  match e with
  | .datapathStop =>
    inferInstanceAs (Decidable (∀ k ∈ held s.pc, k.ringList ∉ s.tRingFreeList))
  | .add .. | .addStep | .deregister _ | .callback _ | .handler .. | .complete _ => isTrue trivial

theorem txReleaseBufUsb_frame (s : State) (buf : UsbBuf) :
    (txReleaseBufUsb s buf).ring = s.ring ∧ (txReleaseBufUsb s buf).life = s.life ∧
      (txReleaseBufUsb s buf).tRingFreeList = s.tRingFreeList ∧
      (txReleaseBufUsb s buf).addPc = s.addPc ∧ (txReleaseBufUsb s buf).accepted = s.accepted ∧
      (txReleaseBufUsb s buf).consumed = s.consumed ∧ (txReleaseBufUsb s buf).pc = s.pc := by
  unfold txReleaseBufUsb
  split <;> exact ⟨rfl, rfl, rfl, rfl, rfl, rfl, rfl⟩

theorem Inv.step {cfg : TxCfg} {e : Event} (h : Inv s) (hok : FreeOk s e)
    (hs : step cfg s e = some s') : Inv s' := by
  cases e with
  | add k req => exact h.addTxReq hs
  | addStep => exact h.addStep hs
  | deregister l => exact h.deregisterTxRing hs
  | callback order => exact h.checkRings hs
  | handler fillWd urb => exact h.handlerStep hs
  | datapathStop =>
    obtain rfl := Option.some.inj hs
    exact h.freeDeferredTxRing hok
  | complete i =>
    simp only [UsbTx.step] at hs
    split at hs
    · cases hs
    · rename_i buf _
      obtain rfl := Option.some.inj hs
      obtain ⟨hr, hl, hf, ha, hacc, hc, hpc⟩ :=
        txReleaseBufUsb_frame { s with inflight := s.inflight.eraseIdx i } buf
      refine h.goto hr hl hf ha hacc hc ?_ ?_ ?_
      · rw [hpc]
      · exact hpc.symm ▸ List.Sublist.refl _
      · rw [hpc]
        exact h.snap

theorem run_inv {cfg : TxCfg} {es : List Event} (hok : Guarded (step cfg) FreeOk (init cfg) es)
    (h : run (step cfg) (init cfg) es = some s) : Inv s :=
  run_preserves Inv (fun _ _ _ hinv hf hs => hinv.step hf hs) (inv_init cfg) hok h

/-- The slot of the `i`-th request that has not been recycled. -/
def slotOf (s : State) (k : RingId) (i : ℕ) : ℕ :=
  ((s.ring k).phlIdx + ((inHand s.pc k).length + i + 1)) % maxPhlRingEntryNum

theorem Inv.entry_eq (h : Inv s) (hlive : s.life k.ringList ≠ .freed) (i : ℕ)
    (hi : i < (unread s k).length) : (s.ring k).entry (slotOf s k i) = some (unread s k)[i] := by
  have hholds := (h.ring k hlive).ring.holds ((inHand s.pc k).length + i)
    (by rw [List.length_append]; omega)
  rw [List.getElem_append_right (Nat.le_add_right _ _)] at hholds
  simp only [Nat.add_sub_cancel_left] at hholds
  exact hholds

/-- The two writes of an add change no entry that is in use. -/
theorem Inv.addStep_entry (h : Inv s) (hs : UsbTx.addStep s = some s')
    (hlive : s.life k.ringList ≠ .freed) (i : ℕ) (hi : i < (unread s k).length) :
    (s'.ring k).entry (slotOf s k i) = (s.ring k).entry (slotOf s k i) := by
  unfold UsbTx.addStep at hs
  cases hadd : s.addPc with
  | idle =>
    rw [hadd] at hs
    cases hs
  | decided k' req =>
    rw [hadd] at hs
    obtain rfl := Option.some.inj hs
    show (Function.update s.ring k' _ k).entry _ = _
    by_cases hk : k = k'
    · subst hk
      rw [Function.update_self]
    · rw [Function.update_of_ne hk]
  | advanced k' req =>
    rw [hadd] at hs
    obtain rfl := Option.some.inj hs
    show (Function.update s.ring k' _ k).entry _ = _
    by_cases hk : k = k'
    · subst hk
      have hring := h.ring k hlive
      rw [hadd] at hring
      obtain ⟨hcore, hroom⟩ := (if_pos rfl).mp hring.core
      rw [Function.update_self]
      refine Function.update_of_ne ?_ _ _
      rw [hcore]
      exact slot_ne_next hroom _ (by rw [List.length_append]; omega)
    · rw [Function.update_of_ne hk]

/-- Up to its decision, a call of `rtw_phl_add_tx_req` writes to no ring. -/
theorem addTxReq_ring (hs : addTxReq s k req = some s') : s'.ring = s.ring := by
  unfold addTxReq at hs
  split at hs
  · cases hs
  split at hs
  · obtain rfl := Option.some.inj hs
    rfl
  split at hs <;> (obtain rfl := Option.some.inj hs; rfl)

/-- A call that has found room succeeds. -/
theorem addStep_returned (hs : addStep s = some s') :
    s'.returned = s.returned ∨ ∃ req, s'.returned = s.returned ++ [(req, .success)] := by
  unfold addStep at hs
  split at hs
  · cases hs
  · obtain rfl := Option.some.inj hs
    exact .inl rfl
  · rename_i req _
    obtain rfl := Option.some.inj hs
    exact .inr ⟨req, rfl⟩

/-- In every run in which `phl_datapath_stop` frees no ring that the running handler holds: the
requests recycled by the handler or the ring free are the first accepted ones, in order; a freed
ring has had all of them recycled; the others are in their entries, where no add writes; and a
call of `rtw_phl_add_tx_req` that is rejected has not touched a ring. -/
theorem tx_ring_fifo {cfg : TxCfg} {es : List Event}
    (hok : Guarded (step cfg) FreeOk (init cfg) es)
    (h : run (step cfg) (init cfg) es = some s) :
    (∀ k, (s.consumed k).map Prod.fst <+: s.accepted k) ∧
    (∀ k, s.life k.ringList = .freed → (s.consumed k).map Prod.fst = s.accepted k) ∧
    (∀ k, s.life k.ringList ≠ .freed → ∀ (i : ℕ) (hi : i < (unread s k).length),
      (s.ring k).entry (slotOf s k i) = some (unread s k)[i]) ∧
    (∀ s', step cfg s .addStep = some s' → ∀ k, s.life k.ringList ≠ .freed →
      ∀ i < (unread s k).length,
        (s'.ring k).entry (slotOf s k i) = (s.ring k).entry (slotOf s k i)) ∧
    (∀ k req s', step cfg s (.add k req) = some s' → s'.ring = s.ring) ∧
    (∀ s', step cfg s .addStep = some s' →
      s'.returned = s.returned ∨ ∃ req, s'.returned = s.returned ++ [(req, .success)]) := by
  have hinv := run_inv hok h
  refine ⟨fun k => ?_, fun k hk => ?_, fun k hk => hinv.entry_eq hk,
    fun s' hs k hk => hinv.addStep_entry hs hk, fun k req s' hs => addTxReq_ring hs,
    fun s' hs => addStep_returned hs⟩
  · rw [hinv.accepted_eq k]
    exact List.prefix_append _ _
  · rw [hinv.accepted_eq k, hinv.freed k hk, List.append_nil]

/-- The options and bus capabilities of the RTL8822CU. -/
def cfg8822cu : TxCfg where
  aggregation := false
  paddingChk := false
  txBufSize := 2048
  txBufNum := 4
  txMgntBufSize := 1536
  txMgntBufNum := 32
  bulkoutSize := 512
  maxBulkoutWdNum := 0

/-- The best-effort ring of the first station. -/
def ring0 : RingId := ⟨0, 0⟩

/-- A data frame of 100 bytes. -/
def frame (addr : ℕ) : XmitReq := ⟨addr, true, .normal, .data, true, 100, [⟨true, 100⟩]⟩

/-- One of two frames is sent, the other one is recycled when the ring is freed. -/
def sendAndFree : List Event :=
  [.add ring0 (frame 1), .addStep, .addStep, .callback [ring0], .add ring0 (frame 2),
    .handler none true, .addStep, .handler (some 48) true, .addStep, .handler none true,
    .handler none true, .deregister 0, .handler none true, .handler none true]

theorem tx_ring_fifo_freed :
    ∃ s, run (step cfg8822cu) (init cfg8822cu) sendAndFree = some s ∧
      s.consumed ring0 = [(frame 1, .handler), (frame 2, .ringFree)] ∧
      s.life ring0.ringList = .freed ∧ (s.consumed ring0).map Prod.fst = s.accepted ring0 := by
  have hend : (run (step cfg8822cu) (init cfg8822cu) sendAndFree).map
      (fun s => (s.consumed ring0, s.life ring0.ringList)) =
        some ([(frame 1, .handler), (frame 2, .ringFree)], .freed) := by decide +kernel
  obtain ⟨s, hs, hview⟩ := Option.map_eq_some_iff.mp hend
  obtain ⟨hconsumed, hlife⟩ := Prod.mk.inj hview
  exact ⟨s, hs, hconsumed, hlife,
    (tx_ring_fifo (show Guarded _ _ _ sendAndFree by decide +kernel) hs).2.1 ring0 hlife⟩

/-- The driver is stopped while the handler is at work on a deregistered ring. -/
def stopDuringRun : List Event :=
  [.add ring0 (frame 1), .addStep, .addStep, .callback [ring0], .handler none true,
    .handler (some 48) true, .deregister 0, .datapathStop]

/-- The request that the handler has prepared is recycled again. -/
theorem request_recycled_twice :
    ∃ s, run (step cfg8822cu) (init cfg8822cu) stopDuringRun = some s ∧
      s.accepted ring0 = [frame 1] ∧
      s.consumed ring0 = [(frame 1, .handler), (frame 1, .ringFree)] ∧
      ¬ (s.consumed ring0).map Prod.fst <+: s.accepted ring0 := by
  have hend : (run (step cfg8822cu) (init cfg8822cu) stopDuringRun).map
      (fun s => (s.accepted ring0, s.consumed ring0)) =
        some ([frame 1], [(frame 1, .handler), (frame 1, .ringFree)]) := by decide +kernel
  obtain ⟨s, hs, hview⟩ := Option.map_eq_some_iff.mp hend
  obtain ⟨hacc, hconsumed⟩ := Prod.mk.inj hview
  refine ⟨s, hs, hacc, hconsumed, ?_⟩
  rw [hacc, hconsumed]
  decide

end Rtl88x2cu.Trx.UsbTx
