import Rtl88x2cu.Dispatcher.Thread

/-!
# Command dispatcher: the request pool

`ReqPool.Inv` says where the requests are and what their status words say about it: every slot is
idle, waiting, the current request, or in the hands of the thread, and `token_cnt` counts the
current request. Every operation on the pool keeps it.
-/

namespace Rtl88x2cu.Dispatcher

open CmdDispatcher

/-- The status of an idle slot. -/
def ReqEx.Idle (r : ReqEx) : Prop := r.status = {}

/-- The status of a request that waits, or was taken out of the wait queue. -/
structure ReqEx.Waiting (r : ReqEx) : Prop where
  run : r.status.run = false
  lastPermit : r.status.lastPermit = false
  moduleId : phlFgMdlStart ≤ r.moduleId

/-- The status of the current request: it gets its last permit only after it has stopped. -/
structure ReqEx.Current (r : ReqEx) : Prop where
  enq : r.status.enq = false
  lastPermit : r.status.lastPermit = true → r.status.run = false
  moduleId : phlFgMdlStart ≤ r.moduleId

namespace ReqPool

/-- Every slot is in exactly one place: the idle or the wait queue, the current request or the
hands of the thread. -/
def Parted (p : ReqPool) : Prop :=
  Placed (List.finRange 8) p.idleQ.queue p.waitQ.queue p.cur.toList p.hand.toList

/-- The invariant of the request pool. -/
structure Inv (p : ReqPool) : Prop where
  parted : p.Parted
  idleWf : p.idleQ.Wf
  waitWf : p.waitQ.Wf
  token : p.tokenCnt = if p.cur.isSome then 1 else 0
  idle : ∀ i ∈ p.idleQ.queue, (p.pool i).Idle
  wait : ∀ i ∈ p.waitQ.queue, (p.pool i).Waiting
  cur : ∀ i ∈ p.cur.toList, (p.pool i).Current
  hand : ∀ i ∈ p.hand.toList, (p.pool i).Waiting

variable {p : ReqPool} {i : ReqSlot}

theorem inv_init : initCmdReqPool.Inv where
  parted := ⟨by decide, by decide⟩
  idleWf := by decide
  waitWf := by decide
  token := rfl
  idle := by simp [initCmdReqPool, ReqEx.Idle]
  wait := by simp [initCmdReqPool, pqInit]
  cur := by simp [initCmdReqPool]
  hand := by simp [initCmdReqPool]

/-! ### What the status words say -/

theorem Inv.cases (h : p.Inv) (i : ReqSlot) :
    (p.pool i).Idle ∨ (p.pool i).Waiting ∨ p.cur = some i ∧ (p.pool i).Current := by
  rcases h.parted.mem_or (List.mem_finRange i) with hi | hi | hi | hi
  · exact Or.inl (h.idle i hi)
  · exact Or.inr (Or.inl (h.wait i hi))
  · exact Or.inr (Or.inr ⟨Option.mem_toList.mp hi, h.cur i hi⟩)
  · exact Or.inr (Or.inl (h.hand i hi))

/-- Requests that are not idle. -/
theorem Inv.not_idle (h : p.Inv) (hst : (p.pool i).status ≠ {}) : i ∉ p.idleQ.queue :=
  fun hi => hst (h.idle i hi)

/-- A request marked as queued is in the wait queue, unless the thread has it in hand. -/
theorem Inv.mem_wait_of_enq (h : p.Inv) (henq : (p.pool i).status.enq = true)
    (hhand : p.hand = none) : i ∈ p.waitQ.queue := by
  rcases h.parted.mem_or (List.mem_finRange i) with hi | hi | hi | hi
  · simp [show (p.pool i).status = {} from h.idle i hi] at henq
  · exact hi
  · simp [(h.cur i hi).enq] at henq
  · simp [hhand] at hi

theorem Inv.cur_eq_none (h : p.Inv) (htoken : ¬ 0 < p.tokenCnt) : p.cur = none := by
  have htok := h.token
  cases hcur : p.cur with
  | none => rfl
  | some i =>
    rw [hcur] at htok
    exact absurd (htok ▸ Int.one_pos) htoken

/-! ### Operations -/

/-- Changing a status word in a way that keeps what its place says about it. -/
theorem Inv.editStatus (h : p.Inv) {f : ReqStatus → ReqStatus} (hidle : i ∉ p.idleQ.queue)
    (hwait : i ∈ p.waitQ.queue ∨ p.hand = some i →
      (f (p.pool i).status).run = false ∧ (f (p.pool i).status).lastPermit = false)
    (hcur : p.cur = some i → (f (p.pool i).status).enq = false ∧
      ((f (p.pool i).status).lastPermit = true → (f (p.pool i).status).run = false)) :
    (p.editStatus i f).Inv where
  parted := h.parted
  idleWf := h.idleWf
  waitWf := h.waitWf
  token := h.token
  idle := forall_update (P := fun _ (r : ReqEx) => r.Idle) h.idle hidle
  wait j hj := by
    rcases eq_or_ne j i with rfl | hne
    · have hst := hwait (Or.inl hj)
      simpa [ReqPool.editStatus] using ⟨hst.1, hst.2, (h.wait j hj).moduleId⟩
    · simpa [ReqPool.editStatus, Function.update_of_ne hne] using h.wait j hj
  cur j hj := by
    rcases eq_or_ne j i with rfl | hne
    · have hst := hcur (Option.mem_toList.mp hj)
      simpa [ReqPool.editStatus] using ⟨hst.1, hst.2, (h.cur j hj).moduleId⟩
    · simpa [ReqPool.editStatus, Function.update_of_ne hne] using h.cur j hj
  hand j hj := by
    rcases eq_or_ne j i with rfl | hne
    · have hst := hwait (Or.inr (Option.mem_toList.mp hj))
      simpa [ReqPool.editStatus] using ⟨hst.1, hst.2, (h.hand j hj).moduleId⟩
    · simpa [ReqPool.editStatus, Function.update_of_ne hne] using h.hand j hj

/-- A change of the status of one slot does not matter in a list it is not in. -/
theorem forall_editStatus {P : ReqEx → Prop} {l : List ReqSlot} {f : ReqStatus → ReqStatus}
    (h : ∀ j ∈ l, P (p.pool j)) (hi : i ∉ l) : ∀ j ∈ l, P ((p.editStatus i f).pool j) :=
  forall_update (P := fun _ r => P r) h hi

/-- `pop_front_wait_req`, when the thread has nothing in hand. -/
theorem Inv.popFrontWaitReq (h : p.Inv) (hhand : p.hand = none) {p' : ReqPool}
    (hpop : p.popFrontWaitReq = some (i, p')) :
    p'.Inv ∧ p'.hand = some i ∧ (p'.pool i).status.enq = false ∧ p'.cur = p.cur := by
  obtain ⟨⟨j, q⟩, hq, hx⟩ := Option.map_eq_some_iff.mp hpop
  obtain ⟨rfl, rfl⟩ := Prod.mk.inj hx
  obtain ⟨hqueue, -⟩ := PhlQueue.pop_spec hq
  have hmem : j ∈ p.waitQ.queue := by simp [hqueue]
  have hnodup := h.parted.nodup_b
  rw [hqueue, List.nodup_cons] at hnodup
  obtain ⟨hidle, hcur, -⟩ := h.parted.sep_b hmem
  refine ⟨?_, rfl, by simp [ReqPool.editStatus], rfl⟩
  refine
    { parted := h.parted.of_perm ?_
      idleWf := h.idleWf
      waitWf := h.waitWf.pop hq
      token := h.token
      idle := forall_editStatus h.idle hidle
      wait := forall_editStatus (fun k hk => h.wait k ?_) hnodup.1
      cur := forall_editStatus h.cur hcur
      hand := fun k hk => ?_ }
  · rw [hhand, hqueue, List.perm_iff_count]
    intro k
    simp only [ReqPool.editStatus, Option.toList, List.count_append, List.count_cons,
      List.count_nil]
    omega
  · rw [hqueue]
    exact List.mem_cons_of_mem _ hk
  · obtain rfl : k = j := by simpa [ReqPool.editStatus] using hk
    have hw := h.wait k hmem
    simpa [ReqPool.editStatus] using ⟨hw.run, hw.lastPermit, hw.moduleId⟩

/-- The request in hand gets the token. -/
theorem Inv.takeToken (h : p.Inv) (hhand : p.hand = some i)
    (henq : (p.pool i).status.enq = false) (hcur : p.cur = none) :
    Inv { p.editStatus i fun st => { st with run := true, prepare := false } with
      cur := some i, tokenCnt := p.tokenCnt + 1, hand := none } := by
  obtain ⟨hidle, hwait, -⟩ := h.parted.sep_d (x := i) (by simp [hhand])
  have hw := h.hand i (by simp [hhand])
  refine
    { parted := h.parted.of_perm ?_
      idleWf := h.idleWf
      waitWf := h.waitWf
      token := by simp [h.token, hcur]
      idle := forall_editStatus
        (f := fun st => { st with run := true, prepare := false }) h.idle hidle
      wait := forall_editStatus
        (f := fun st => { st with run := true, prepare := false }) h.wait hwait
      cur := fun k hk => ?_
      hand := by simp }
  · simp [ReqPool.editStatus, hhand, hcur]
  · obtain rfl : k = i := by simpa using hk
    simpa [ReqPool.editStatus, hw.lastPermit] using ⟨henq, by simp, hw.moduleId⟩

/-- `push_back_idle_req` of the current request, and the token is back. -/
theorem Inv.releaseToken (h : p.Inv) (hcur : p.cur = some i) :
    Inv { p.editStatus i fun _ => {} with
      idleQ := pqPush p.idleQ i, tokenCnt := p.tokenCnt - 1, cur := none } := by
  obtain ⟨hidle, hwait, hhand⟩ := h.parted.sep_c (x := i) (by simp [hcur])
  refine
    { parted := h.parted.of_perm ?_
      idleWf := h.idleWf.push i
      waitWf := h.waitWf
      token := by simp [h.token, hcur]
      idle := fun k hk => ?_
      wait := forall_editStatus (f := fun _ => {}) h.wait hwait
      cur := by simp
      hand := forall_editStatus (f := fun _ => {}) h.hand hhand }
  · rw [hcur, List.perm_iff_count]
    intro k
    simp only [ReqPool.editStatus, pqPush, Option.toList, List.count_append, List.count_cons,
      List.count_nil]
    omega
  · rcases List.mem_append.mp hk with hk | hk
    · exact forall_editStatus (f := fun _ => {}) h.idle hidle k hk
    · obtain rfl : k = i := by simpa using hk
      simp [ReqPool.editStatus, ReqEx.Idle]

/-- A request that waits is taken out of the queue. -/
theorem Inv.takeWaiting (h : p.Inv) (hhand : p.hand = none) (hi : i ∈ p.waitQ.queue) :
    Inv { p with waitQ := pqDelNode p.waitQ i, hand := some i } where
  parted := by
    refine h.parted.of_perm ?_
    rw [hhand, List.perm_iff_count]
    intro k
    have hpos := List.count_pos_iff.mpr hi
    simp only [pqDelNode, Option.toList, List.count_append, List.count_cons, List.count_nil,
      List.count_erase]
    by_cases hk : i = k
    · subst hk
      simp only [beq_self_eq_true, if_true]
      omega
    · simp [hk]
  idleWf := h.idleWf
  waitWf := h.waitWf.delNode hi
  token := h.token
  idle := h.idle
  wait j hj := h.wait j (List.mem_of_mem_erase hj)
  cur := h.cur
  hand j hj := by
    obtain rfl : j = i := by simpa using hj
    exact h.wait j hi

/-- `push_back_idle_req` of the request in hand. -/
theorem Inv.putBack (h : p.Inv) (hhand : p.hand = some i) :
    Inv { p.editStatus i fun _ => {} with idleQ := pqPush p.idleQ i, hand := none } := by
  obtain ⟨hidle, hwait, hcur⟩ := h.parted.sep_d (x := i) (by simp [hhand])
  refine
    { parted := h.parted.of_perm ?_
      idleWf := h.idleWf.push i
      waitWf := h.waitWf
      token := h.token
      idle := fun k hk => ?_
      wait := forall_editStatus (f := fun _ => {}) h.wait hwait
      cur := forall_editStatus (f := fun _ => {}) h.cur hcur
      hand := by simp }
  · rw [hhand, List.perm_iff_count]
    intro k
    simp only [ReqPool.editStatus, pqPush, Option.toList, List.count_append, List.count_cons,
      List.count_nil]
    omega
  · rcases List.mem_append.mp hk with hk | hk
    · exact forall_editStatus (f := fun _ => {}) h.idle hidle k hk
    · obtain rfl : k = i := by simpa using hk
      simp [ReqPool.editStatus, ReqEx.Idle]

/-- `pop_front_idle_req` and `push_back_wait_req`. -/
theorem Inv.add (h : p.Inv) {q : PhlQueue ReqSlot} (hpop : pqPop p.idleQ = some (i, q))
    {r : ReqEx} (hr : r.Waiting) (gen : ReqSlot → ℕ) :
    Inv { p with
      pool := Function.update (Function.update p.pool i {}) i r
      idleQ := q
      waitQ := pqPush p.waitQ i
      gen := gen } := by
  obtain ⟨hqueue, -⟩ := PhlQueue.pop_spec hpop
  have hmem : i ∈ p.idleQ.queue := by simp [hqueue]
  have hnodup := h.parted.nodup_a
  rw [hqueue, List.nodup_cons] at hnodup
  obtain ⟨hwait, hcur, hhand⟩ := h.parted.sep_a hmem
  rw [Function.update_idem]
  refine
    { parted := h.parted.of_perm ?_
      idleWf := h.idleWf.pop hpop
      waitWf := h.waitWf.push i
      token := h.token
      idle := forall_update (P := fun _ (r : ReqEx) => r.Idle) (fun j hj => h.idle j ?_) hnodup.1
      wait := fun k hk => ?_
      cur := forall_update (P := fun _ (r : ReqEx) => r.Current) h.cur hcur
      hand := forall_update (P := fun _ (r : ReqEx) => r.Waiting) h.hand hhand }
  · rw [hqueue, List.perm_iff_count]
    intro k
    simp only [pqPush, List.count_append, List.count_cons, List.count_nil]
    omega
  · rw [hqueue]
    exact List.mem_cons_of_mem _ hj
  · rcases List.mem_append.mp hk with hk | hk
    · exact forall_update (P := fun _ (r : ReqEx) => r.Waiting) h.wait hwait k hk
    · obtain rfl : k = i := by simpa using hk
      simpa using hr

/-- Marking a request as cancelled. -/
theorem Inv.cancelReq (h : p.Inv) (hst : (p.pool i).status ≠ {}) :
    (p.editStatus i fun st => { st with cancel := true }).Inv := by
  refine h.editStatus (h.not_idle hst) (fun hw => ?_) fun hc => ?_
  · rcases hw with hw | hw
    · exact ⟨(h.wait i hw).run, (h.wait i hw).lastPermit⟩
    · have hi := h.hand i (by simp [hw])
      exact ⟨hi.run, hi.lastPermit⟩
  · have hi := h.cur i (by simp [hc])
    exact ⟨hi.enq, hi.lastPermit⟩

/-- A slot after `cancel_all_cmd_req`. -/
theorem cancelAllCmdReq_pool (p : ReqPool) (i : ReqSlot) :
    p.cancelAllCmdReq.pool i = p.pool i ∨ (p.pool i).status ≠ {} ∧ p.cancelAllCmdReq.pool i =
      { p.pool i with status := { (p.pool i).status with cancel := true } } := by
  by_cases hi : (p.pool i).status = {}
  · exact Or.inl (if_pos hi)
  · exact Or.inr ⟨hi, if_neg hi⟩

/-- `cancel_all_cmd_req`. -/
theorem Inv.cancelAllCmdReq (h : p.Inv) : p.cancelAllCmdReq.Inv where
  parted := h.parted
  idleWf := h.idleWf
  waitWf := h.waitWf
  token := h.token
  idle j hj := by
    have hidle := h.idle j hj
    rcases p.cancelAllCmdReq_pool j with hpool | ⟨hne, -⟩
    · rwa [hpool]
    · exact absurd hidle hne
  wait j hj := by
    have hw := h.wait j hj
    rcases p.cancelAllCmdReq_pool j with hpool | ⟨-, hpool⟩
    · rwa [hpool]
    · rw [hpool]
      exact ⟨hw.run, hw.lastPermit, hw.moduleId⟩
  cur j hj := by
    have hc := h.cur j hj
    rcases p.cancelAllCmdReq_pool j with hpool | ⟨-, hpool⟩
    · rwa [hpool]
    · rw [hpool]
      exact ⟨hc.enq, hc.lastPermit, hc.moduleId⟩
  hand j hj := by
    have hw := h.hand j hj
    rcases p.cancelAllCmdReq_pool j with hpool | ⟨-, hpool⟩
    · rwa [hpool]
    · rw [hpool]
      exact ⟨hw.run, hw.lastPermit, hw.moduleId⟩

end ReqPool

end Rtl88x2cu.Dispatcher
