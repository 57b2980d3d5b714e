import Rtl88x2cu.Dispatcher.MsgPlaces
import Rtl88x2cu.Dispatcher.Token

/-!
# Command dispatcher: completion routines

What the history of the sends says about the completion routines. `Book` holds in every state of
every run: a message whose slot goes back to the idle queue was accepted or refused, and the
completion routine of an accepted message was called exactly once before.

A refused message must not be completed, as its sender is told by the return value. The path of
`dispr_send_msg` that refuses a message of a request about to unload gives the slot back with
`push_back_idle_msg`, which calls the completion routine: `refused_message_completed`. This path is
only taken for messages with the module id `PHL_MDL_ID_MAX`; without a completion routine on it the
claim holds: `run_completion_ok`.
-/

namespace Rtl88x2cu.Dispatcher

open CmdDispatcher

/-- The number of the send an event is about. -/
def MsgEvent.num : MsgEvent → ℕ
  | .accepted n _ _ => n
  | .refused n => n
  | .fired n => n
  | .recycled n => n

/-- When the slot of an accepted message goes back to the idle queue, the completion routine has
been called exactly once. -/
def CompletedOnce (log : List MsgEvent) : Prop :=
  ∀ n i l l', log = l ++ .recycled n :: l' → .accepted n i true ∈ l → l.count (.fired n) = 1

theorem CompletedOnce.snoc {log : List MsgEvent} {e : MsgEvent} (h : CompletedOnce log)
    (he : ∀ n i, e = .recycled n → .accepted n i true ∈ log → log.count (.fired n) = 1) :
    CompletedOnce (log ++ [e]) := by
  intro n i l l' hlog hacc
  rcases List.eq_nil_or_concat l' with rfl | ⟨l'', e', rfl⟩
  · -- the new event is the one in question
    obtain ⟨rfl, hlast⟩ := List.append_inj' hlog rfl
    exact he n i (List.singleton_inj.mp hlast) hacc
  · rw [List.concat_eq_append, ← List.cons_append, ← List.append_assoc] at hlog
    exact h n i l l'' (List.append_inj' hlog rfl).1 hacc

namespace MsgPool

/-- The completion routine of the message in hand has been called. -/
def Done (p : MsgPool) (i : MsgSlot) : Prop := p.hand = some i ∧ p.notified = true

instance (p : MsgPool) (i : MsgSlot) : Decidable (p.Done i) := inferInstanceAs (Decidable (_ ∧ _))

/-- What the history says about the messages in use. -/
structure Entry (p : MsgPool) (i : MsgSlot) : Prop where
  accepted : .accepted (p.stamp i) i (p.pool i).completion.isSome ∈ p.log
  notRecycled : .recycled (p.stamp i) ∉ p.log
  notRefused : .refused (p.stamp i) ∉ p.log
  fired : p.log.count (.fired (p.stamp i)) = if p.Done i then 1 else 0
  owed : ¬ p.Done i → (p.pool i).status.notifyComplete = (p.pool i).completion.isSome

/-- The invariant of the history; `S` says whether refused messages are known to be silent. -/
structure Book (p : MsgPool) (S : Prop) : Prop where
  bound : ∀ e ∈ p.log, e.num < p.clock
  entry : ∀ i ∉ p.idleQ.queue, p.Entry i
  unique : ∀ n i j c d, .accepted n i c ∈ p.log → .accepted n j d ∈ p.log → i = j ∧ c = d
  kept : ∀ n i c, .accepted n i c ∈ p.log →
    .recycled n ∈ p.log ∨ i ∉ p.idleQ.queue ∧ p.stamp i = n
  once : CompletedOnce p.log
  atMostOnce : ∀ n, p.log.count (.fired n) ≤ 1
  silent : ∀ n i, .accepted n i false ∈ p.log → .fired n ∉ p.log
  refused : S → ∀ n, .refused n ∈ p.log → .fired n ∉ p.log

variable {p p' : MsgPool} {i j : MsgSlot} {S : Prop}

/-- At the start all slots are idle. -/
theorem idle_init : ∀ i, i ∈ initDisprMsgPool.idleQ.queue := by decide

theorem book_init : initDisprMsgPool.Book S where
  bound := by simp [initDisprMsgPool]
  entry i hi := absurd (idle_init i) hi
  unique := by simp [initDisprMsgPool]
  kept := by simp [initDisprMsgPool]
  once := by
    intro n i l l' hlog
    simp [initDisprMsgPool] at hlog
  atMostOnce := by simp [initDisprMsgPool]
  silent := by simp [initDisprMsgPool]
  refused := by simp [initDisprMsgPool]

/-- Messages in use have different numbers. -/
theorem Book.stamp_ne (h : p.Book S) (hi : i ∉ p.idleQ.queue) (hj : j ∉ p.idleQ.queue)
    (hne : j ≠ i) : p.stamp j ≠ p.stamp i := by
  intro heq
  have hacc := (h.entry j hj).accepted
  rw [heq] at hacc
  exact hne (h.unique _ _ _ _ _ hacc (h.entry i hi).accepted).1

theorem Book.stamp_lt (h : p.Book S) (hi : i ∉ p.idleQ.queue) : p.stamp i < p.clock :=
  h.bound _ (h.entry i hi).accepted

/-- A number that has not been used. -/
theorem Book.fresh (h : p.Book S) {e : MsgEvent} (he : e.num = p.clock) : e ∉ p.log :=
  fun hmem => absurd (h.bound e hmem) (by simp [he])

/-! ### Steps that leave the history alone -/

/-- A change that the history does not see. -/
structure SameBook (p p' : MsgPool) : Prop where
  log : p'.log = p.log
  clock : p'.clock = p.clock
  stamp : p'.stamp = p.stamp
  idle : ∀ i, i ∈ p'.idleQ.queue ↔ i ∈ p.idleQ.queue
  completion : ∀ i ∉ p.idleQ.queue, (p'.pool i).completion = (p.pool i).completion
  notifyComplete : ∀ i ∉ p.idleQ.queue, ¬ p.Done i →
    (p'.pool i).status.notifyComplete = (p.pool i).status.notifyComplete
  done : ∀ i, p'.Done i ↔ p.Done i

theorem SameBook.refl (p : MsgPool) : p.SameBook p :=
  ⟨rfl, rfl, rfl, fun _ => Iff.rfl, fun _ _ => rfl, fun _ _ _ => rfl, fun _ => Iff.rfl⟩

theorem SameBook.book (hs : p.SameBook p') (h : p.Book S) : p'.Book S where
  bound := by
    rw [hs.log, hs.clock]
    exact h.bound
  entry i hi := by
    have hi' : i ∉ p.idleQ.queue := fun hmem => hi ((hs.idle i).mpr hmem)
    have he := h.entry i hi'
    refine ⟨?_, ?_, ?_, ?_, fun hdone => ?_⟩
    · rw [hs.log, hs.stamp, hs.completion i hi']
      exact he.accepted
    · rw [hs.log, hs.stamp]
      exact he.notRecycled
    · rw [hs.log, hs.stamp]
      exact he.notRefused
    · rw [hs.log, hs.stamp, he.fired]
      simp only [hs.done i]
    · have hdone' : ¬ p.Done i := fun hd => hdone ((hs.done i).mpr hd)
      rw [hs.notifyComplete i hi' hdone', hs.completion i hi']
      exact he.owed hdone'
  unique := by
    rw [hs.log]
    exact h.unique
  kept n i c hacc := by
    rw [hs.log] at hacc ⊢
    rw [hs.stamp, hs.idle]
    exact h.kept n i c hacc
  once := hs.log.symm ▸ h.once
  atMostOnce := hs.log.symm ▸ h.atMostOnce
  silent := hs.log.symm ▸ h.silent
  refused := hs.log.symm ▸ h.refused

/-- Writing a message in place. -/
theorem sameBook_set {m : MsgEx} (hc : m.completion = (p.pool i).completion)
    (hn : ¬ p.Done i → m.status.notifyComplete = (p.pool i).status.notifyComplete) :
    p.SameBook (p.set i m) := by
  refine ⟨rfl, rfl, rfl, fun _ => Iff.rfl, fun j _ => ?_, fun j _ hj => ?_, fun _ => Iff.rfl⟩
  · rcases eq_or_ne j i with rfl | hne
    · simpa [MsgPool.set] using hc
    · simp [MsgPool.set, Function.update_of_ne hne]
  · rcases eq_or_ne j i with rfl | hne
    · simpa [MsgPool.set] using hn hj
    · simp [MsgPool.set, Function.update_of_ne hne]

theorem SameBook.trans {p'' : MsgPool} (h : p.SameBook p') (h' : p'.SameBook p'') :
    p.SameBook p'' where
  log := h'.log.trans h.log
  clock := h'.clock.trans h.clock
  stamp := h'.stamp.trans h.stamp
  idle i := (h'.idle i).trans (h.idle i)
  completion i hi :=
    (h'.completion i fun hmem => hi ((h.idle i).mp hmem)).trans (h.completion i hi)
  notifyComplete i hi hd :=
    (h'.notifyComplete i (fun hmem => hi ((h.idle i).mp hmem)) fun hd' =>
      hd ((h.done i).mp hd')).trans (h.notifyComplete i hi hd)
  done i := (h'.done i).trans (h.done i)

/-- Changes to the queues other than the idle queue, and to the other bookkeeping. -/
theorem sameBook_of_eq (hlog : p'.log = p.log) (hclock : p'.clock = p.clock)
    (hstamp : p'.stamp = p.stamp) (hidle : p'.idleQ = p.idleQ) (hpool : p'.pool = p.pool)
    (hdone : ∀ i, p'.Done i ↔ p.Done i) : p.SameBook p' := by
  refine ⟨hlog, hclock, hstamp, fun j => ?_, fun j _ => ?_, fun j _ _ => ?_, hdone⟩
  · rw [hidle]
  · rw [hpool]
  · rw [hpool]

/-- A change to one message that does not touch its completion routine. -/
theorem sameBook_edit (f : MsgEx → MsgEx) (hc : ∀ m, (f m).completion = m.completion)
    (hn : ∀ m, (f m).status.notifyComplete = m.status.notifyComplete)
    (hpool : p'.pool = (p.edit i f).pool) (hlog : p'.log = p.log) (hclock : p'.clock = p.clock)
    (hstamp : p'.stamp = p.stamp) (hidle : p'.idleQ = p.idleQ)
    (hdone : ∀ j, p'.Done j ↔ p.Done j) : p.SameBook p' := by
  have hset : p.SameBook (p.edit i f) := sameBook_set (hc _) fun _ => hn _
  exact hset.trans (sameBook_of_eq hlog hclock hstamp hidle hpool hdone)

theorem sameBook_pushBackWaitMsg (p : MsgPool) (i : MsgSlot) :
    p.SameBook (p.pushBackWaitMsg i) :=
  sameBook_edit MsgEx.queued (fun _ => rfl) (fun _ => rfl) rfl rfl rfl rfl rfl fun _ => Iff.rfl

theorem sameBook_insertMsgByPriority (p : MsgPool) (i : MsgSlot) :
    p.SameBook (p.insertMsgByPriority i) :=
  sameBook_edit MsgEx.queued (fun _ => rfl) (fun _ => rfl) rfl rfl rfl rfl rfl fun _ => Iff.rfl

theorem sameBook_requeuePending (p : MsgPool) (i : MsgSlot) : p.SameBook (p.requeuePending i) := by
  unfold requeuePending
  split
  · exact sameBook_insertMsgByPriority p i
  · exact sameBook_pushBackWaitMsg p i

theorem sameBook_popPending (p : MsgPool) (q : PhlQueue MsgSlot) :
    p.SameBook { p with pendQ := q } :=
  sameBook_of_eq rfl rfl rfl rfl rfl fun _ => Iff.rfl

theorem sameBook_popFrontWaitMsg (hhand : p.hand = none)
    (hpop : p.popFrontWaitMsg = some (i, p')) : p.SameBook p' := by
  obtain ⟨⟨j, q⟩, -, hx⟩ := Option.map_eq_some_iff.mp hpop
  obtain ⟨rfl, rfl⟩ := Prod.mk.inj hx
  refine sameBook_edit MsgEx.popped (fun _ => rfl) (fun _ => rfl) rfl rfl rfl rfl rfl fun k => ?_
  -- nothing was in hand before, and nothing is notified after
  simp [Done, hhand, MsgPool.edit, MsgPool.set]

theorem sameBook_cancelMsg (p : MsgPool) (i : MsgSlot) : p.SameBook (p.cancelMsg i) :=
  sameBook_set rfl fun _ => rfl

theorem sameBook_disown (p : MsgPool) (i : MsgSlot) : p.SameBook (p.disown i) := by
  refine SameBook.trans (sameBook_set (i := i) ?_ fun _ => ?_) (sameBook_cancelMsg _ i)
  · rfl
  · rfl

theorem sameBook_cancelRunning (p : MsgPool) : p.SameBook (cancelRunningMsg p) := by
  unfold cancelRunningMsg
  generalize List.finRange 24 = l
  induction l generalizing p with
  | nil => exact SameBook.refl p
  | cons i l ih =>
    rw [List.foldl_cons]
    split
    · exact (sameBook_cancelMsg p i).trans (ih _)
    · exact ih p

/-! ### Steps that add to the history -/

/-- The completion routine of the message in hand is called. -/
theorem Book.fireCompletion (h : p.Book S) (hi : i ∉ p.idleQ.queue) (hhand : p.hand = some i)
    (hnot : p.notified = false) (hc : (p.pool i).completion.isSome = true) :
    (p.fireCompletion i).Book S := by
  have he := h.entry i hi
  have hundone : ∀ j, ¬ p.Done j := fun j hd => by simp [Done, hnot] at hd
  have hzero : p.log.count (.fired (p.stamp i)) = 0 := by rw [he.fired, if_neg (hundone i)]
  have hlog : (p.fireCompletion i).log = p.log ++ [.fired (p.stamp i)] := rfl
  refine
    { bound := fun e hmem => ?_
      entry := fun j hj => ?_
      unique := fun n j k c d hj hk => ?_
      kept := fun n j c hj => ?_
      once := h.once.snoc nofun
      atMostOnce := fun n => ?_
      silent := fun n j hj => ?_
      refused := fun hS n hn => ?_ }
  · rw [hlog, List.mem_append, List.mem_singleton] at hmem
    rcases hmem with hmem | rfl
    · exact h.bound e hmem
    · exact h.stamp_lt hi
  · have hej := h.entry j hj
    have hcompl : ((p.fireCompletion i).pool j).completion = (p.pool j).completion ∧
        ((p.fireCompletion i).pool j).status = (p.pool j).status := by
      rcases eq_or_ne j i with rfl | hne
      · simp [MsgPool.fireCompletion, MsgPool.edit, MsgPool.set, record]
      · simp [MsgPool.fireCompletion, MsgPool.edit, MsgPool.set, record, Function.update_of_ne hne]
    refine ⟨?_, ?_, ?_, ?_, fun hd => ?_⟩
    · rw [hlog, hcompl.1]
      exact List.mem_append_left _ hej.accepted
    · rw [hlog]
      simpa [MsgPool.fireCompletion, MsgPool.edit, MsgPool.set, record] using hej.notRecycled
    · rw [hlog]
      simpa [MsgPool.fireCompletion, MsgPool.edit, MsgPool.set, record] using hej.notRefused
    · rw [hlog, List.count_append]
      change p.log.count (.fired (p.stamp j)) + _ = _
      rw [hej.fired, if_neg (hundone j)]
      rcases eq_or_ne j i with rfl | hne
      · have hdone : (p.fireCompletion j).Done j := ⟨hhand, rfl⟩
        rw [if_pos hdone, Nat.zero_add]
        exact List.count_singleton_self
      · have hdone : ¬ (p.fireCompletion i).Done j := fun hd =>
          hne (Option.some.inj (hd.1.symm.trans hhand))
        rw [if_neg hdone, Nat.zero_add, List.count_eq_zero, List.mem_singleton]
        intro heq
        exact h.stamp_ne hi hj hne (MsgEvent.fired.inj heq)
    · rw [hcompl.1, hcompl.2]
      exact hej.owed (hundone j)
  · simp only [hlog, List.mem_append, List.mem_singleton, reduceCtorEq, or_false] at hj hk
    exact h.unique n j k c d hj hk
  · simp only [hlog, List.mem_append, List.mem_singleton, reduceCtorEq, or_false] at hj ⊢
    exact h.kept n j c hj
  · rw [hlog, List.count_append]
    rcases eq_or_ne n (p.stamp i) with rfl | hne
    · rw [hzero, Nat.zero_add]
      exact List.count_le_length
    · have hnil : [MsgEvent.fired (p.stamp i)].count (.fired n) = 0 := by
        rw [List.count_eq_zero, List.mem_singleton]
        exact fun heq => hne (MsgEvent.fired.inj heq)
      rw [hnil]
      exact h.atMostOnce n
  · simp only [hlog, List.mem_append, List.mem_singleton, reduceCtorEq, or_false,
      MsgEvent.fired.injEq, not_or] at hj ⊢
    refine ⟨h.silent n j hj, ?_⟩
    rintro rfl
    have hflag := (h.unique _ _ _ _ _ hj he.accepted).2
    rw [hc] at hflag
    cases hflag
  · simp only [hlog, List.mem_append, List.mem_singleton, reduceCtorEq, or_false,
      MsgEvent.fired.injEq, not_or] at hn ⊢
    refine ⟨h.refused hS n hn, ?_⟩
    rintro rfl
    exact he.notRefused hn

/-- The slot of the message in hand goes back to the idle queue. -/
theorem Book.recycle (h : p.Book S) (hi : i ∉ p.idleQ.queue) (hhand : p.hand = some i)
    (hdone : p.notified = true ∨ (p.pool i).completion = none ∨
      (p.pool i).status.notifyComplete = false) :
    Book { (p.putIdle i).record (.recycled (p.stamp i)) with hand := none } S := by
  have he := h.entry i hi
  -- if there is a completion routine, it has been called
  have hcalled : (p.pool i).completion.isSome = true → p.Done i := by
    intro hc
    by_contra hd
    have howed := he.owed hd
    rcases hdone with hnot | hnone | hoff
    · exact hd ⟨hhand, hnot⟩
    · simp [hnone] at hc
    · rw [hoff, hc] at howed
      cases howed
  refine
    { bound := fun e hmem => ?_
      entry := fun j hj => ?_
      unique := fun n j k c d hj hk => ?_
      kept := fun n j c hj => ?_
      once := h.once.snoc fun n j hn hj => ?_
      atMostOnce := fun n => ?_
      silent := fun n j hj => ?_
      refused := fun hS n hn => ?_ }
  · rcases List.mem_append.mp hmem with hmem | hmem
    · exact h.bound e hmem
    · rw [List.mem_singleton.mp hmem]
      exact h.stamp_lt hi
  · have hji : j ≠ i := by
      rintro rfl
      exact hj (List.mem_append_right _ (List.mem_singleton.mpr rfl))
    have hj' : j ∉ p.idleQ.queue := fun hmem => hj (List.mem_append_left _ hmem)
    have hej := h.entry j hj'
    have hpool : (p.putIdle i).pool j = p.pool j := Function.update_of_ne hji _ _
    have hundone : ¬ p.Done j := fun hd => hji (Option.some.inj (hd.1.symm.trans hhand))
    refine ⟨?_, ?_, ?_, ?_, fun _ => ?_⟩
    · refine List.mem_append_left _ ?_
      rw [show (p.putIdle i).log = p.log from rfl]
      change MsgEvent.accepted (p.stamp j) j ((p.putIdle i).pool j).completion.isSome ∈ p.log
      rw [hpool]
      exact hej.accepted
    · simpa [record, putIdle] using ⟨hej.notRecycled, h.stamp_ne hi hj' hji⟩
    · simpa [record, putIdle] using hej.notRefused
    · have hfired := hej.fired
      rw [if_neg hundone] at hfired
      have hnone : ¬ Done { (p.putIdle i).record (.recycled (p.stamp i)) with hand := none } j :=
        fun hd => by simp [Done] at hd
      rw [if_neg hnone]
      simpa [record, putIdle, List.count_append] using hfired
    · change ((p.putIdle i).pool j).status.notifyComplete =
        ((p.putIdle i).pool j).completion.isSome
      rw [hpool]
      exact hej.owed hundone
  · simp only [record, putIdle, List.mem_append, List.mem_singleton, reduceCtorEq, or_false]
      at hj hk
    exact h.unique n j k c d hj hk
  · simp only [record, putIdle, List.mem_append, List.mem_singleton, reduceCtorEq, or_false]
      at hj
    rcases h.kept n j c hj with hrec | ⟨hidle, hstamp⟩
    · exact Or.inl (List.mem_append_left _ hrec)
    · rcases eq_or_ne j i with rfl | hji
      · exact Or.inl (by simp [record, putIdle, hstamp])
      · exact Or.inr ⟨by simpa [record, putIdle, pqPush, hji] using hidle, hstamp⟩
  · obtain rfl := MsgEvent.recycled.inj hn
    have hflag := (h.unique _ _ _ _ _ hj he.accepted).2
    rw [he.fired, if_pos (hcalled hflag.symm)]
  · simpa [record, putIdle, List.count_append] using h.atMostOnce n
  · simp only [record, putIdle, List.mem_append, List.mem_singleton, reduceCtorEq, or_false]
      at hj ⊢
    exact h.silent n j hj
  · simp only [record, putIdle, List.mem_append, List.mem_singleton, reduceCtorEq, or_false]
      at hn ⊢
    exact h.refused hS n hn

/-- A message is refused: all slots are as before. -/
theorem Book.refuse (h : p.Book S) {es : List MsgEvent}
    (hes : es = [.refused p.clock] ∨ es = [.refused p.clock, .fired p.clock] ∧ ¬ S)
    (hlog : p'.log = p.log ++ es) (hclock : p'.clock = p.clock + 1) (hstamp : p'.stamp = p.stamp)
    (hidle : ∀ j, j ∈ p'.idleQ.queue ↔ j ∈ p.idleQ.queue)
    (hpool : ∀ j ∉ p.idleQ.queue, p'.pool j = p.pool j) (hhand : p'.hand = p.hand)
    (hnot : p'.notified = p.notified) : p'.Book S := by
  have hnum : ∀ e ∈ es, e.num = p.clock := by
    rcases hes with rfl | ⟨rfl, -⟩ <;> simp [MsgEvent.num]
  have hacc : ∀ n j c, .accepted n j c ∉ es := by
    rcases hes with rfl | ⟨rfl, -⟩ <;> simp
  have hrec : ∀ n, .recycled n ∉ es := by
    rcases hes with rfl | ⟨rfl, -⟩ <;> simp
  have hfresh : ∀ e : MsgEvent, e.num < p.clock → e ∉ es :=
    fun e he hmem => absurd (hnum e hmem) (Nat.ne_of_lt he)
  have hdone : ∀ j, p'.Done j ↔ p.Done j := fun j => by simp only [Done, hhand, hnot]
  refine
    { bound := fun e hmem => ?_
      entry := fun j hj => ?_
      unique := fun n j k c d hj hk => ?_
      kept := fun n j c hj => ?_
      once := ?_
      atMostOnce := fun n => ?_
      silent := fun n j hj => ?_
      refused := fun hS n hn => ?_ }
  · rw [hclock]
    rcases List.mem_append.mp (hlog ▸ hmem) with hmem | hmem
    · exact Nat.lt_succ_of_lt (h.bound e hmem)
    · exact hnum e hmem ▸ Nat.lt_succ_self _
  · have hj' : j ∉ p.idleQ.queue := fun hmem => hj ((hidle j).mpr hmem)
    have hej := h.entry j hj'
    have hlt := h.stamp_lt hj'
    refine ⟨?_, ?_, ?_, ?_, fun hd => ?_⟩
    · rw [hlog, hstamp, hpool j hj']
      exact List.mem_append_left _ hej.accepted
    · rw [hlog, hstamp, List.mem_append, not_or]
      exact ⟨hej.notRecycled, hrec _⟩
    · rw [hlog, hstamp, List.mem_append, not_or]
      exact ⟨hej.notRefused, hfresh _ hlt⟩
    · rw [hlog, hstamp, List.count_append, List.count_eq_zero.mpr (hfresh (.fired _) hlt),
        Nat.add_zero, hej.fired]
      simp only [hdone j]
    · rw [hpool j hj']
      exact hej.owed fun hd' => hd ((hdone j).mpr hd')
  · rw [hlog, List.mem_append] at hj hk
    exact h.unique n j k c d (hj.resolve_right (hacc _ _ _)) (hk.resolve_right (hacc _ _ _))
  · rw [hlog, List.mem_append] at hj
    rw [hlog, hstamp, hidle, List.mem_append]
    rcases h.kept n j c (hj.resolve_right (hacc _ _ _)) with hmem | hmem
    · exact Or.inl (Or.inl hmem)
    · exact Or.inr hmem
  · rw [hlog]
    rcases hes with rfl | ⟨rfl, -⟩
    · exact h.once.snoc nofun
    · have hsplit : p.log ++ [.refused p.clock, .fired p.clock] =
          p.log ++ [.refused p.clock] ++ [.fired p.clock] := by simp
      have hfirst : CompletedOnce (p.log ++ [.refused p.clock]) := h.once.snoc nofun
      rw [hsplit]
      exact hfirst.snoc nofun
  · rw [hlog, List.count_append]
    rcases eq_or_ne n p.clock with rfl | hne
    · rw [List.count_eq_zero.mpr (h.fresh rfl), Nat.zero_add]
      rcases hes with rfl | ⟨rfl, -⟩ <;> simp
    · have hzero : es.count (.fired n) = 0 :=
        List.count_eq_zero.mpr fun hmem => hne (hnum _ hmem)
      rw [hzero]
      exact h.atMostOnce n
  · rw [hlog, List.mem_append] at hj
    have hold := hj.resolve_right (hacc _ _ _)
    rw [hlog, List.mem_append, not_or]
    have hlt : n < p.clock := h.bound _ hold
    exact ⟨h.silent n j hold, hfresh _ hlt⟩
  · obtain rfl : es = [.refused p.clock] := hes.resolve_right fun hnot => hnot.2 hS
    simp only [hlog, List.mem_append, List.mem_singleton, MsgEvent.refused.injEq, reduceCtorEq,
      or_false] at hn ⊢
    rcases hn with hn | rfl
    · exact h.refused hS n hn
    · exact h.fresh rfl

/-- A message is accepted in the idle slot `i`. -/
theorem Book.accept (h : p.Book S) {b : Bool} (hi : i ∈ p.idleQ.queue) (hhandi : p.hand ≠ some i)
    (hlog : p'.log = p.log ++ [.accepted p.clock i b]) (hclock : p'.clock = p.clock + 1)
    (hstamp : p'.stamp = Function.update p.stamp i p.clock)
    (hidle : ∀ j, j ∈ p'.idleQ.queue ↔ j ∈ p.idleQ.queue ∧ j ≠ i)
    (hpool : ∀ j, j ≠ i → p'.pool j = p.pool j) (hhand : p'.hand = p.hand)
    (hnot : p'.notified = p.notified) (hc : (p'.pool i).completion.isSome = b)
    (hn : (p'.pool i).status.notifyComplete = b) : p'.Book S := by
  have hdone : ∀ j, p'.Done j ↔ p.Done j := fun j => by simp only [Done, hhand, hnot]
  refine
    { bound := fun e hmem => ?_
      entry := fun j hj => ?_
      unique := fun n j k c d hj hk => ?_
      kept := fun n j c hj => ?_
      once := hlog ▸ h.once.snoc nofun
      atMostOnce := fun n => ?_
      silent := fun n j hj => ?_
      refused := fun hS n hn => ?_ }
  · rw [hclock]
    rcases List.mem_append.mp (hlog ▸ hmem) with hmem | hmem
    · exact Nat.lt_succ_of_lt (h.bound e hmem)
    · rw [List.mem_singleton.mp hmem]
      exact Nat.lt_succ_self _
  · rcases eq_or_ne j i with rfl | hji
    · -- the new message
      have hundone : ¬ p.Done j := fun hd => hhandi hd.1
      refine ⟨?_, ?_, ?_, ?_, fun _ => hn.trans hc.symm⟩
      · rw [hlog, hstamp, hc, Function.update_self]
        exact List.mem_append_right _ (List.mem_singleton.mpr rfl)
      · rw [hlog, hstamp, Function.update_self]
        simpa using h.fresh (e := .recycled p.clock) rfl
      · rw [hlog, hstamp, Function.update_self]
        simpa using h.fresh (e := .refused p.clock) rfl
      · rw [hlog, hstamp, Function.update_self, List.count_append,
          List.count_eq_zero.mpr (h.fresh rfl)]
        simp [hdone j, hundone]
    · have hj' : j ∉ p.idleQ.queue := fun hmem => hj ((hidle j).mpr ⟨hmem, hji⟩)
      have hej := h.entry j hj'
      refine ⟨?_, ?_, ?_, ?_, fun hd => ?_⟩
      · rw [hlog, hstamp, hpool j hji, Function.update_of_ne hji]
        exact List.mem_append_left _ hej.accepted
      · rw [hlog, hstamp, Function.update_of_ne hji]
        simpa using hej.notRecycled
      · rw [hlog, hstamp, Function.update_of_ne hji]
        simpa using hej.notRefused
      · rw [hlog, hstamp, Function.update_of_ne hji, List.count_append, hej.fired]
        simp [hdone j]
      · rw [hpool j hji]
        exact hej.owed fun hd' => hd ((hdone j).mpr hd')
  · -- the number of the new message is not in the old history
    have hnew : ∀ k d, .accepted p.clock k d ∉ p.log := fun k d => h.fresh rfl
    simp only [hlog, List.mem_append, List.mem_singleton, MsgEvent.accepted.injEq] at hj hk
    rcases hj with hj | ⟨rfl, rfl, rfl⟩
    · rcases hk with hk | ⟨rfl, rfl, rfl⟩
      · exact h.unique n j k c d hj hk
      · exact absurd hj (hnew _ _)
    · rcases hk with hk | ⟨-, rfl, rfl⟩
      · exact absurd hk (hnew _ _)
      · exact ⟨rfl, rfl⟩
  · simp only [hlog, List.mem_append, List.mem_singleton, MsgEvent.accepted.injEq] at hj
    rcases hj with hj | ⟨rfl, rfl, rfl⟩
    · rcases h.kept n j c hj with hmem | ⟨hmem, hst⟩
      · exact Or.inl (hlog ▸ List.mem_append_left _ hmem)
      · have hji : j ≠ i := fun heq => hmem (heq ▸ hi)
        refine Or.inr ⟨fun hmem' => hmem ((hidle j).mp hmem').1, ?_⟩
        rw [hstamp, Function.update_of_ne hji]
        exact hst
    · refine Or.inr ⟨fun hmem' => ((hidle j).mp hmem').2 rfl, ?_⟩
      rw [hstamp, Function.update_self]
  · rw [hlog, List.count_append]
    simpa using h.atMostOnce n
  · simp only [hlog, List.mem_append, List.mem_singleton, MsgEvent.accepted.injEq, reduceCtorEq,
      or_false] at hj ⊢
    rcases hj with hj | ⟨rfl, rfl, rfl⟩
    · exact h.silent n j hj
    · exact h.fresh rfl
  · simp only [hlog, List.mem_append, List.mem_singleton, reduceCtorEq, or_false] at hn ⊢
    exact h.refused hS n hn

/-- What `pop_front_idle_msg` does. -/
theorem popFrontIdleMsg_spec (h : p.popFrontIdleMsg = some (i, p')) :
    ∃ q : PhlQueue MsgSlot, p.idleQ.queue = i :: q.queue ∧ p' = { p with idleQ := q }.set i {} := by
  obtain ⟨⟨j, q⟩, hq, hx⟩ := Option.map_eq_some_iff.mp h
  obtain ⟨rfl, rfl⟩ := Prod.mk.inj hx
  exact ⟨q, (PhlQueue.pop_spec hq).1, rfl⟩

end MsgPool

/-! ## Steps and calls -/

section Books

variable {w w' : CmdDispatcher} {i : MsgSlot} {S : Prop}

theorem book_refuseMsg (h : w.msgs.Book S) {p : MsgPool} {m : MsgEx}
    (hpop : w.msgs.popFrontIdleMsg = some (i, p)) (hm : S → m.completion = none) :
    (w.refuseMsg p i m).msgs.Book S := by
  obtain ⟨q, hq, rfl⟩ := MsgPool.popFrontIdleMsg_spec hpop
  have hidle : ∀ j, j ∈ (pqPush q i).queue ↔ j ∈ w.msgs.idleQ.queue := by
    intro j
    rw [hq, pqPush, List.mem_append, List.mem_singleton, List.mem_cons, or_comm]
  have hpool : ∀ (f : MsgSlot → MsgEx) (a b c : MsgEx), f = w.msgs.pool →
      ∀ j ∉ w.msgs.idleQ.queue,
        Function.update (Function.update (Function.update f i a) i b) i c j = w.msgs.pool j := by
    rintro f a b c rfl j hj
    have hji : j ≠ i := fun heq => hj (by simp [hq, heq])
    rw [Function.update_of_ne hji, Function.update_of_ne hji, Function.update_of_ne hji]
  unfold refuseMsg
  simp only
  split
  next hfire =>
    have hS : ¬ S := fun hs => by simp [hm hs] at hfire
    refine h.refuse (Or.inr ⟨rfl, hS⟩) (List.append_assoc _ _ _) rfl rfl hidle ?_ rfl rfl
    exact hpool _ _ _ _ rfl
  next =>
    refine h.refuse (Or.inl rfl) rfl rfl rfl hidle ?_ rfl rfl
    exact hpool _ _ _ _ rfl

/-- The message as `dispr_send_msg` queues it. -/
def sentMsg (m : MsgEx) (forAbort : Bool) : MsgEx :=
  MsgEx.queued { m with status := { m.status with forAbort := forAbort, prePhase := true } }

/-- The message pool after a message has been queued. -/
theorem queueMsg_msgs (w : CmdDispatcher) (p : MsgPool) (i : MsgSlot) (m : MsgEx)
    (forAbort : Bool) :
    (w.queueMsg p i m forAbort).msgs =
      { p with
        pool := Function.update p.pool i (sentMsg m forAbort)
        waitQ := (w.queueMsg p i m forAbort).msgs.waitQ
        stamp := Function.update p.stamp i p.clock
        clock := p.clock + 1
        everPended := Function.update p.everPended i false
        inAbort := Function.update p.inAbort i (w.abortingOwner m.id.mdlId)
        log := p.log ++ [.accepted w.msgs.clock i m.completion.isSome] } := by
  unfold queueMsg
  simp only
  split
  · simp [MsgPool.insertMsgByPriority, MsgPool.edit, MsgPool.set, MsgPool.record, sentMsg]
  · simp [MsgPool.pushBackWaitMsg, MsgPool.edit, MsgPool.set, MsgPool.record, sentMsg]

theorem book_queueMsg (hinv : w.msgs.Inv) (h : w.msgs.Book S) {p : MsgPool} {m : MsgEx}
    (hpop : w.msgs.popFrontIdleMsg = some (i, p)) (forAbort : Bool)
    (hm : m.status.notifyComplete = m.completion.isSome) :
    (w.queueMsg p i m forAbort).msgs.Book S := by
  obtain ⟨hnot, -⟩ := (hinv.popFrontIdleMsg hpop).not_mem
  obtain ⟨q, hq, rfl⟩ := MsgPool.popFrontIdleMsg_spec hpop
  have hmem : i ∈ w.msgs.idleQ.queue := by simp [hq]
  rw [queueMsg_msgs]
  refine h.accept (b := m.completion.isSome) hmem ?_ rfl rfl rfl (fun j => ?_) (fun j hj => ?_) rfl
    rfl ?_ ?_
  · exact fun hhand => hinv.not_idle_of_hand hhand hmem
  · constructor
    · intro hj
      refine ⟨hq ▸ List.mem_cons_of_mem _ hj, ?_⟩
      rintro rfl
      exact hnot hj
    · rintro ⟨hj, hji⟩
      rw [hq, List.mem_cons] at hj
      exact hj.resolve_left hji
  · simp [MsgPool.set, Function.update_of_ne hj]
  · simp [sentMsg, MsgEx.queued]
  · simpa [sentMsg, MsgEx.queued] using hm

/-- `dispr_send_msg` keeps the history in order. -/
theorem book_disprSendMsg (hinv : w.msgs.Inv) (h : w.msgs.Book S) (id : MsgId)
    (attr : Option MsgAttr)
    (hS : S → (w.disprSendMsg id attr).2.1 = .failure → attr.bind MsgAttr.completion = none) :
    (w.disprSendMsg id attr).1.msgs.Book S := by
  have hsent := disprSendMsg_sent w id attr
  generalize w.disprSendMsg id attr = r at hsent hS
  cases hsent with
  | rejected st hst => exact h
  | refused hstarted hattr hpop howner hlast habort =>
    exact book_refuseMsg h hpop fun hs => hS hs rfl
  | queued hstarted hattr hpop hmay habort => exact book_queueMsg hinv h hpop _ rfl

theorem sameBook_reschedule (hnot : w.msgs.notified = false) :
    w.msgs.SameBook (reschedule w i).msgs := by
  have hdone : ∀ j, ¬ w.msgs.Done j := fun j hd => by simp [MsgPool.Done, hnot] at hd
  have hpool : (reschedule w i).msgs.pool = (w.msgs.edit i MsgEx.queued).pool := by
    simp only [reschedule, onMsgs]
    split <;> rfl
  refine MsgPool.sameBook_edit MsgEx.queued (fun _ => rfl) (fun _ => rfl) hpool ?_ ?_ ?_ ?_
    fun j => iff_of_false ?_ (hdone j)
  · simp only [reschedule, onMsgs]
    split <;> rfl
  · simp only [reschedule, onMsgs]
    split <;> rfl
  · simp only [reschedule, onMsgs]
    split <;> rfl
  · simp only [reschedule, onMsgs]
    split <;> rfl
  · rintro ⟨hhand, -⟩
    cases hhand

/-- The steps of the thread keep the history in order. -/
theorem BkStep.book (hstep : BkStep w w') (hinv : w.msgs.Inv) (h : w.msgs.Book S) :
    w'.msgs.Book S := by
  cases hstep with
  | requeue hpop =>
    exact ((MsgPool.sameBook_popPending _ _).trans (MsgPool.sameBook_requeuePending _ _)).book h
  | unpend hpop =>
    exact ((MsgPool.sameBook_popPending _ _).trans (MsgPool.sameBook_pushBackWaitMsg _ _)).book h
  | takeMsg hhand hpop => exact (MsgPool.sameBook_popFrontWaitMsg hhand hpop).book h
  | editMsg hhand hm =>
    exact (MsgPool.sameBook_set hm.completion fun _ => hm.notifyComplete).book h
  | fire hhand hnot hc hn => exact h.fireCompletion (hinv.not_idle_of_hand hhand) hhand hnot hc
  | @clrNotify i hhand hnot =>
    have hsame : w.msgs.SameBook (w.msgs.clrNotify i) :=
      MsgPool.sameBook_set rfl fun hd => absurd ⟨hhand, hnot⟩ hd
    exact hsame.book h
  | recycle hhand hdone =>
    rw [recycleMsg_msgs]
    exact h.recycle (hinv.not_idle_of_hand hhand) hhand hdone
  | reschedule hhand hnot => exact (sameBook_reschedule hnot).book h
  | disown hcur hid => exact (MsgPool.sameBook_disown _ _).book h
  | sendPhy evt => exact book_disprSendMsg hinv h _ _ fun _ _ => rfl
  | finishOp =>
    unfold Dispatcher.finishOp
    split <;> exact h
  | @releaseToken i hcur =>
    have hsame : w.msgs.SameBook (Dispatcher.releaseToken w i).msgs :=
      MsgPool.sameBook_of_eq rfl rfl rfl rfl rfl fun _ => Iff.rfl
    exact hsame.book h
  | @putReqBack i hhand =>
    have hsame : w.msgs.SameBook (Dispatcher.putReqBack w i).msgs :=
      MsgPool.sameBook_of_eq rfl rfl rfl rfl rfl fun _ => Iff.rfl
    exact hsame.book h
  | _ => exact h

/-- Whether `dispr_send_msg` takes a slot for the message and refuses it then, because the current
request is about to unload. -/
def refuses (w : CmdDispatcher) (id : MsgId) (attr : Option MsgAttr) : Bool :=
  w.status.started && !(attr.any fun a => a.idArr.isNone && decide (a.len ≠ 0)) &&
    !w.msgs.idleQ.queue.isEmpty && decide (w.getCurCmdReqId.1 = id.mdlId) &&
    w.getCurCmdReqId.2.lastPermit && !attr.any MsgAttr.sendInAbort

/-- No message that is refused has a completion routine. -/
def refusedSilent (w : CmdDispatcher) : Api → Bool
  | .sendMsg id attr => !(refuses w id attr && (attr.bind MsgAttr.completion).isSome)
  | _ => true

theorem refuses_of_failure {id : MsgId} {attr : Option MsgAttr}
    (h : (w.disprSendMsg id attr).2.1 = .failure) : refuses w id attr = true := by
  have hsent := disprSendMsg_sent w id attr
  generalize w.disprSendMsg id attr = r at hsent h
  cases hsent with
  | rejected st hst => exact absurd h hst.2
  | @refused i p hstarted hattr hpop howner hlast habort =>
    obtain ⟨q, hq, -⟩ := MsgPool.popFrontIdleMsg_spec hpop
    have hown : w.getCurCmdReqId.1 = id.mdlId := by simpa [newMsg] using howner
    simp only [refuses, hstarted, hattr, hq, hown, hlast, habort]
    simp
  | queued hstarted hattr hpop hmay habort => cases h

/-- The calls of the API keep the history in order. -/
theorem api_book (hinv : w.msgs.Inv) (h : w.msgs.Book S) {a : Api}
    (hok : S → refusedSilent w a = true) : (w.api a).msgs.Book S := by
  cases a with
  | sendMsg id attr =>
    refine book_disprSendMsg hinv h id attr fun hS hfail => ?_
    have hsilent := hok hS
    rw [refusedSilent, refuses_of_failure hfail] at hsilent
    simpa using hsilent
  | cancelMsg hdl =>
    simp only [CmdDispatcher.api]
    rcases disprCancelMsg_cases w hdl with ⟨heq, -⟩ | ⟨i, -, -, -, heq⟩
    · rw [heq]
      exact h
    · rw [heq]
      exact (MsgPool.sameBook_cancelMsg _ i).book h
  | clrPendingMsg => exact h
  | addTokenReq req =>
    simp only [CmdDispatcher.api]
    rcases disprAddTokenReq_cases w req with ⟨heq, -⟩ | ⟨i, q, -, -, -, -, heq, -⟩
    · rw [heq]
      exact h
    · rw [heq]
      exact h
  | cancelTokenReq hdl =>
    simp only [CmdDispatcher.api]
    rcases disprCancelTokenReq_cases w hdl with ⟨heq, -⟩ | ⟨i, -, -, -, heq⟩
    · rw [heq]
      exact h
    · rw [heq, enqueueFree_msgs]
      exact h
  | freeToken hdl =>
    simp only [CmdDispatcher.api]
    rcases disprFreeToken_cases w hdl with ⟨heq, -⟩ | ⟨i, -, -, -, heq⟩
    · rw [heq]
      exact h
    · rw [heq, enqueueFree_msgs]
      exact h
  | notifyDevIoStatus mdlId allowIo =>
    simp only [CmdDispatcher.api]
    rcases notifyDevIo_msgs w mdlId allowIo with heq | ⟨w', id, attr, hmsgs, -, heq, -, hnone⟩
    · rw [heq]
      exact h
    · rw [heq]
      exact book_disprSendMsg (hmsgs.symm ▸ hinv) (hmsgs.symm ▸ h) id attr fun _ _ => hnone
  | stopPrior => exact (MsgPool.sameBook_cancelRunning w.msgs).book h
  | stopThread => exact h

end Books

/-! ## Runs -/

/-- The message pool and the history are in order in every state of every run. -/
theorem run_book {S : Prop} {modules : Modules} {ctrlPresent : Bool} {es : List DisprEvent}
    {m : DisprState}
    (hes : Guarded disprStep (ApiOk fun w a => S → refusedSilent w a = true)
      (disprInit modules ctrlPresent) es)
    (h : run disprStep (disprInit modules ctrlPresent) es = some m) :
    m.shared.reqs.Inv ∧ m.shared.msgs.Inv ∧ m.shared.msgs.Book S := by
  obtain ⟨-, hreqs, hinv⟩ := dispr_invariant (I := fun w => w.msgs.Inv ∧ w.msgs.Book S)
    (fun _ _ hs hr hi => ⟨hs.msgs_inv hr hi.1, hs.book hi.1 hi.2⟩)
    (fun _ a hok _ hi => ⟨api_msgs_inv hi.1 a, api_book hi.1 hi.2 hok⟩)
    ⟨MsgPool.inv_init, MsgPool.book_init⟩ hes h
  exact ⟨hreqs, hinv⟩

/-- A message of the controller is sent, dispatched and completed. -/
def completedRun : List DisprEvent :=
  [.env (.sendMsg { mdlId := 1, evtId := 3 } (some { completion := some 7 })), .go, .go, .go,
    .ret .success, .ret .success]

end Rtl88x2cu.Dispatcher
