import Mathlib.Algebra.Order.Ring.Nat
import Mathlib.Data.List.Basic
import Mathlib.Data.List.Nodup
import Rtl88x2cu.Core.CmdQueue

/-!
# What the command thread does to an accepted object

An object is outside the queue, in it, with the thread, or settled (`place`). Each place fixes what
has been done to the object (`Place.Ok`). `Inv.step` is the invariant over the steps of callers and
thread in which no call inserts after the thread has left, no oversized object passes the filter,
and every callback frees its object.
-/

namespace Rtl88x2cu.Core.Cmd

/-! ## The ledger at each place -/

/-- How far the thread is with the object it holds. -/
inductive Stage
  | fresh
  | judged
  | woken

/-- The waiter of the object has not been completed. -/
def Waiting (c : Call) : Prop :=
  c.ledger.completed = 0 ∧ c.sctx = (c.obj.sctx && !c.gaveUp)

/-- The waiter of the object, if it still waited, has been completed. -/
def Completed (c : Call) : Prop :=
  c.ledger.completed = (c.obj.sctx && !c.gaveUp).toNat ∧ c.sctx = false

/-- Nothing has been done to the object. -/
def Untouched (l : Ledger) : Prop :=
  l.handled = 0 ∧ l.dropped = 0 ∧ l.pbufFreed = 0

/-- The object has been handled or dropped, and its extra buffer freed. -/
def Judged (o : CmdObj) (l : Ledger) : Prop :=
  l.handled + l.dropped = 1 ∧ l.pbufFreed = o.pbufs

/-- The object and its buffers have not been freed. -/
def Unfreed (l : Ledger) : Prop := l.objFreed = 0 ∧ l.parmFreed = 0 ∧ l.rspFreed = 0

/-- The object and its buffers have been freed exactly once. -/
def Freed (o : CmdObj) (l : Ledger) : Prop :=
  l.objFreed = 1 ∧ l.parmFreed = o.parms ∧ l.rspFreed = o.rsps

/-- Nothing has been done to the object and its waiter. -/
def Fresh (c : Call) : Prop := Untouched c.ledger ∧ Waiting c ∧ Unfreed c.ledger

/-- The object has been handled or dropped, its waiter completed and its buffers freed, each exactly
once. -/
def Settled (c : Call) : Prop := Judged c.obj c.ledger ∧ Completed c ∧ Freed c.obj c.ledger

/-- The refused object and its buffers have been freed exactly once, and nothing else was done. -/
def Refused (c : Call) : Prop :=
  c.ledger.handled = 0 ∧ c.ledger.dropped = 0 ∧ c.ledger.completed = 0 ∧
    c.ledger.pbufFreed = c.obj.pbufs ∧ Freed c.obj c.ledger

/-- What has been done to the object at a stage of the thread. -/
def Stage.Ok : Stage → Call → Prop
  | .fresh, c => Fresh c
  | .judged, c => Judged c.obj c.ledger ∧ Waiting c ∧ Unfreed c.ledger
  | .woken, c => Judged c.obj c.ledger ∧ Completed c ∧ Unfreed c.ledger

/-- The call has inserted its object, which fits the buffer of the thread. -/
def Accepted (c : Call) : Prop :=
  (c.pc = .inserted ∨ c.pc = .returned true) ∧ c.obj.cmdsz ≤ maxCmdsz

/-- A call that has inserted nothing. -/
def Outside (c : Call) : Prop :=
  match c.pc with
  | .called | .hwRead | .refusing false => Fresh c
  | .passed => Fresh c ∧ c.obj.cmdsz ≤ maxCmdsz
  | .returned false => Refused c
  | _ => False

/-! ## Places -/

/-- The object that the thread holds, and its stage. -/
def ThreadPc.holds : ThreadPc → Option (ℕ × Stage)
  | .got i | .exec i | .drop i => some (i, .fresh)
  | .post i _ | .dropPost i => some (i, .judged)
  | .finish i _ | .dropFree i => some (i, .woken)
  | _ => none

/-- Where an object is. -/
inductive Place
  | outside
  | queued
  | held (st : Stage)
  | settled

/-- The place of the object `i`. -/
def place (s : St) (i : ℕ) : Place :=
  if i ∈ s.cmdQueue then .queued
  else if i ∈ s.taken then
    match s.thread.holds with
    | some (j, st) => if j = i then .held st else .settled
    | none => .settled
  else .outside

/-- What has been done to an object at a place. -/
def Place.Ok : Place → Call → Prop
  | .outside, c => Outside c
  | .queued, c => Accepted c ∧ Fresh c
  | .held st, c => Accepted c ∧ st.Ok c
  | .settled, c => Accepted c ∧ Settled c

theorem place_of_mem_cmdQueue {s : St} {i : ℕ} (h : i ∈ s.cmdQueue) : place s i = .queued := by
  simp [place, h]

theorem place_of_holds {s : St} {i : ℕ} {st : Stage} (hq : i ∉ s.cmdQueue) (ht : i ∈ s.taken)
    (h : s.thread.holds = some (i, st)) : place s i = .held st := by
  simp [place, hq, ht, h]

theorem place_settled {s : St} {i : ℕ} (hq : i ∉ s.cmdQueue) (ht : i ∈ s.taken)
    (h : ∀ st, s.thread.holds ≠ some (i, st)) : place s i = .settled := by
  simp only [place, hq, ht, if_true, if_false]
  split
  · next j st hst =>
    rw [if_neg]
    rintro rfl
    exact h st hst
  · rfl

theorem place_outside {s : St} {i : ℕ} (hq : i ∉ s.cmdQueue) (ht : i ∉ s.taken) :
    place s i = .outside := by
  simp [place, hq, ht]

/-- The place depends on the queue, on what was taken and on what the thread holds. -/
theorem place_congr {s t : St} {i : ℕ} (hq : t.cmdQueue = s.cmdQueue) (ht : t.taken = s.taken)
    (h : t.thread.holds = s.thread.holds) : place t i = place s i := by
  simp only [place, hq, ht, h]

/-- Two states with one queue that differ in what the thread does with the object `i`. -/
theorem place_congr_of_ne {s t : St} {i j : ℕ} (hij : j ≠ i) (hq : t.cmdQueue = s.cmdQueue)
    (ht : t.taken = s.taken) (hs : ∀ k st, s.thread.holds = some (k, st) → k = i)
    (h : ∀ k st, t.thread.holds = some (k, st) → k = i) : place t j = place s j := by
  by_cases hjq : j ∈ s.cmdQueue
  · rw [place_of_mem_cmdQueue hjq, place_of_mem_cmdQueue (hq ▸ hjq)]
  by_cases hjt : j ∈ s.taken
  · rw [place_settled hjq hjt fun st hst => hij (hs j st hst),
      place_settled (hq ▸ hjq) (ht ▸ hjt) fun st hst => hij (h j st hst)]
  · rw [place_outside hjq hjt, place_outside (hq ▸ hjq) (ht ▸ hjt)]

/-! ## The ledger under the operations of the thread -/

theorem freed_rtwFreeCmdObj {o : CmdObj} {l : Ledger} (h : Unfreed l) :
    Freed o (rtwFreeCmdObj o l) := by
  obtain ⟨h1, h2, h3⟩ := h
  simp [Freed, rtwFreeCmdObj, h1, h2, h3]

/-- The waiter is completed exactly if it still waits. -/
theorem completed_rtwSctxDone {c : Call} (h : Waiting c) : Completed (rtwSctxDone c) := by
  obtain ⟨hc, hs⟩ := h
  unfold rtwSctxDone Completed
  split
  · next hsctx =>
    rw [hs] at hsctx
    simp [hc, hsctx]
  · next hsctx =>
    rw [hs, Bool.not_eq_true] at hsctx
    exact ⟨by rw [hc, hsctx]; rfl, hs.trans hsctx⟩

theorem rtwSctxDone_pc (c : Call) : (rtwSctxDone c).pc = c.pc := by
  unfold rtwSctxDone
  split <;> rfl

theorem rtwSctxDone_obj (c : Call) : (rtwSctxDone c).obj = c.obj := by
  unfold rtwSctxDone
  split <;> rfl

theorem judged_rtwSctxDone {c : Call} (h : Judged c.obj c.ledger) :
    Judged (rtwSctxDone c).obj (rtwSctxDone c).ledger := by
  unfold rtwSctxDone
  split <;> exact h

theorem unfreed_rtwSctxDone {c : Call} (h : Unfreed c.ledger) : Unfreed (rtwSctxDone c).ledger := by
  unfold rtwSctxDone
  split <;> exact h

theorem woken_rtwSctxDone {c : Call} (h : Stage.judged.Ok c) : Stage.woken.Ok (rtwSctxDone c) :=
  ⟨judged_rtwSctxDone h.1, completed_rtwSctxDone h.2.1, unfreed_rtwSctxDone h.2.2⟩

/-- A dropped object whose extra buffer is freed first. -/
theorem judged_dropped {c : Call} (h : Fresh c) :
    Stage.judged.Ok { c with ledger :=
      { freePbuf c.obj c.ledger with dropped := (freePbuf c.obj c.ledger).dropped + 1 } } := by
  obtain ⟨⟨hh, hd, hp⟩, hw, hf⟩ := h
  exact ⟨⟨by simp [freePbuf, hh, hd], by simp [freePbuf, hp]⟩, hw, hf⟩

/-- A dropped object without an extra buffer. -/
theorem judged_refused {c : Call} (h : Fresh c) (hp : c.obj.pbufs = 0) :
    Stage.judged.Ok { c with ledger := { c.ledger with dropped := c.ledger.dropped + 1 } } := by
  obtain ⟨⟨hh, hd, hpb⟩, hw, hf⟩ := h
  exact ⟨⟨by simp [hh, hd], by simp [hpb, hp]⟩, hw, hf⟩

/-- A handled object. -/
theorem judged_handled {c : Call} (h : Fresh c) :
    Stage.judged.Ok { c with ledger :=
      { freePbuf c.obj c.ledger with handled := (freePbuf c.obj c.ledger).handled + 1 } } := by
  obtain ⟨⟨hh, hd, hp⟩, hw, hf⟩ := h
  exact ⟨⟨by simp [freePbuf, hh, hd], by simp [freePbuf, hp]⟩, hw, hf⟩

theorem settled_rtwFreeCmdObj {c : Call} (h : Stage.woken.Ok c) :
    Settled { c with ledger := rtwFreeCmdObj c.obj c.ledger } :=
  ⟨h.1, h.2.1, freed_rtwFreeCmdObj h.2.2⟩

/-- A refused object is freed with its buffers. -/
theorem refused_rtwFreeCmdObj {c : Call} (h : Fresh c) :
    Refused { c with
      pc := .returned false
      ledger := rtwFreeCmdObj c.obj (freePbuf c.obj c.ledger) } := by
  obtain ⟨⟨hh, hd, hp⟩, ⟨hc, _⟩, hf⟩ := h
  exact ⟨hh, hd, hc, by simp [rtwFreeCmdObj, freePbuf, hp], freed_rtwFreeCmdObj hf⟩

/-! ## The invariant -/

/-- The objects are queued and taken in the order they were put in, each once, and at its place each
has undergone what that place says. -/
structure Inv (s : St) : Prop where
  fifo : s.enqueued = s.taken ++ s.cmdQueue
  once : s.enqueued.Nodup
  known : ∀ i ∈ s.enqueued, i < s.calls.length
  holds : ∀ i st, s.thread.holds = some (i, st) → i ∈ s.taken
  drained : s.thread = .gone → s.cmdQueue = []
  ok : ∀ i c, s.calls[i]? = some c → (place s i).Ok c

theorem Inv.notMem_cmdQueue {s : St} (h : Inv s) {i : ℕ} (hi : i ∈ s.taken) :
    i ∉ s.cmdQueue := by
  have hn := h.once
  rw [h.fifo, List.nodup_append] at hn
  exact fun hq => hn.2.2 i hi i hq rfl

/-- The object that the thread holds is at the stage the thread is at. -/
theorem Inv.held {s : St} (h : Inv s) {i : ℕ} {st : Stage} (hst : s.thread.holds = some (i, st))
    {c : Call} (hc : s.calls[i]? = some c) : Accepted c ∧ st.Ok c := by
  have ht := h.holds i st hst
  have := h.ok i c hc
  rwa [place_of_holds (h.notMem_cmdQueue ht) ht hst] at this

/-- A step that leaves the objects where they are. -/
theorem Inv.of_congr {s t : St} (h : Inv s) (he : t.enqueued = s.enqueued)
    (hq : t.cmdQueue = s.cmdQueue) (ht : t.taken = s.taken) (hc : t.calls = s.calls)
    (hh : t.thread.holds = s.thread.holds) (hd : t.thread = .gone → t.cmdQueue = []) : Inv t where
  fifo := by rw [he, hq, ht, h.fifo]
  once := he ▸ h.once
  known := by rw [he, hc]; exact h.known
  holds := by rw [hh, ht]; exact h.holds
  drained := hd
  ok := by
    rw [hc]
    intro i c hi
    rw [place_congr hq ht hh]
    exact h.ok i c hi

/-- A step that does something to one object. -/
theorem Inv.of_set {s t : St} (h : Inv s) {i : ℕ} {c : Call} (he : t.enqueued = s.enqueued)
    (hq : t.cmdQueue = s.cmdQueue) (ht : t.taken = s.taken) (hc : t.calls = s.calls.set i c)
    (hh : ∀ j st, t.thread.holds = some (j, st) → j ∈ s.taken)
    (hd : t.thread = .gone → t.cmdQueue = [])
    (hp : ∀ j, j ≠ i → place t j = place s j) (hok : (place t i).Ok c) : Inv t where
  fifo := by rw [he, hq, ht, h.fifo]
  once := he ▸ h.once
  known := by rw [he, hc, List.length_set]; exact h.known
  holds := by rw [ht]; exact hh
  drained := hd
  ok := by
    rw [hc]
    intro j d hj
    by_cases hij : j = i
    · subst hij
      obtain ⟨hlt, rfl⟩ : j < s.calls.length ∧ c = d := by
        rw [List.getElem?_set_self'] at hj
        obtain ⟨e, he, rfl⟩ := Option.map_eq_some_iff.mp hj
        exact ⟨(List.getElem?_eq_some_iff.mp he).1, rfl⟩
      exact hok
    · rw [List.getElem?_set_ne (Ne.symm hij)] at hj
      rw [hp j hij]
      exact h.ok j d hj

/-- A step of the thread on the object it holds. -/
theorem Inv.of_thread {s t : St} (h : Inv s) {i : ℕ} {st : Stage} {c : Call}
    (hst : s.thread.holds = some (i, st)) (he : t.enqueued = s.enqueued)
    (hq : t.cmdQueue = s.cmdQueue) (ht : t.taken = s.taken) (hc : t.calls = s.calls.set i c)
    (hd : t.thread ≠ .gone) {st' : Stage} (hst' : t.thread.holds = some (i, st'))
    (hacc : Accepted c) (hok : st'.Ok c) : Inv t := by
  have hi := h.holds i st hst
  refine h.of_set he hq ht hc ?_ (fun hg => absurd hg hd) ?_ ?_
  · rw [hst']
    rintro j st'' ⟨⟩
    exact hi
  · intro j hj
    refine place_congr_of_ne hj hq ht ?_ ?_
    · rw [hst]; rintro k _ ⟨⟩; rfl
    · rw [hst']; rintro k _ ⟨⟩; rfl
  · rw [place_of_holds (hq ▸ h.notMem_cmdQueue hi) (ht ▸ hi) hst']
    exact ⟨hacc, hok⟩

/-- The thread is done with the object it holds. -/
theorem Inv.of_settled {s t : St} (h : Inv s) {i : ℕ} {st : Stage} {c : Call}
    (hst : s.thread.holds = some (i, st)) (he : t.enqueued = s.enqueued)
    (hq : t.cmdQueue = s.cmdQueue) (ht : t.taken = s.taken) (hc : t.calls = s.calls.set i c)
    (hd : t.thread ≠ .gone) (hst' : t.thread.holds = none)
    (hacc : Accepted c) (hok : Settled c) : Inv t := by
  have hi := h.holds i st hst
  refine h.of_set he hq ht hc ?_ (fun hg => absurd hg hd) ?_ ?_
  · rw [hst']
    rintro j st'' ⟨⟩
  · intro j hj
    refine place_congr_of_ne hj hq ht ?_ ?_
    · rw [hst]; rintro k _ ⟨⟩; rfl
    · rw [hst']; rintro k _ ⟨⟩
  · rw [place_settled (hq ▸ h.notMem_cmdQueue hi) (ht ▸ hi) (by rw [hst']; rintro _ ⟨⟩)]
    exact ⟨hacc, hok⟩

/-- A step of a call or of its waiter that moves no object. -/
theorem Inv.of_call {s t : St} (h : Inv s) {i : ℕ} {c : Call} (he : t.enqueued = s.enqueued)
    (hq : t.cmdQueue = s.cmdQueue) (ht : t.taken = s.taken) (hc : t.calls = s.calls.set i c)
    (hth : t.thread = s.thread) (hok : (place s i).Ok c) : Inv t := by
  have hp : ∀ j, place t j = place s j := fun j => place_congr hq ht (by rw [hth])
  refine h.of_set he hq ht hc ?_ ?_ (fun j _ => hp j) (hp i ▸ hok)
  · rw [hth]; exact h.holds
  · rw [hth, hq]; exact h.drained

/-- The thread takes the first object. -/
theorem Inv.of_take {s t : St} (h : Inv s) {i : ℕ} {queue : List ℕ} (hs : s.cmdQueue = i :: queue)
    (hnone : s.thread.holds = none) (he : t.enqueued = s.enqueued) (hq : t.cmdQueue = queue)
    (ht : t.taken = s.taken ++ [i]) (hc : t.calls = s.calls) (hd : t.thread ≠ .gone)
    (hh : t.thread.holds = some (i, .fresh)) : Inv t := by
  have hfifo : t.enqueued = t.taken ++ t.cmdQueue := by
    rw [he, h.fifo, hs, ht, hq, List.append_assoc, List.singleton_append]
  have hn : (t.taken ++ t.cmdQueue).Nodup := hfifo ▸ he ▸ h.once
  rw [List.nodup_append] at hn
  refine ⟨hfifo, he ▸ h.once, by rw [he, hc]; exact h.known, ?_, fun hg => absurd hg hd, ?_⟩
  · rw [hh]
    rintro j st ⟨⟩
    simp [ht]
  · rw [hc]
    intro j c hj
    have hok := h.ok j c hj
    by_cases hij : j = i
    · subst hij
      have hjt : j ∈ t.taken := by simp [ht]
      rw [place_of_mem_cmdQueue (by simp [hs])] at hok
      rw [place_of_holds (fun hjq => hn.2.2 j hjt j hjq rfl) hjt hh]
      exact hok
    · -- the others stay where they are
      have hjq : j ∈ t.cmdQueue ↔ j ∈ s.cmdQueue := by simp [hs, hq, hij]
      have hjt : j ∈ t.taken ↔ j ∈ s.taken := by simp [ht, hij]
      have hp : place t j = place s j := by
        simp only [place, hjq, hjt, hh, hnone, if_neg (Ne.symm hij)]
      rw [hp]
      exact hok

/-! ## Steps of the callers -/

/-- The callback frees its object. -/
def CallbackFrees (cmdcode res : ℕ) : Prop :=
  match callbackOf cmdcode with
  | some .disassoc => res = h2cSuccess
  | some .survey => False
  | _ => True

instance instDecidableCallbackFrees (cmdcode res : ℕ) : Decidable (CallbackFrees cmdcode res) := by
  unfold CallbackFrees
  split <;> infer_instance

/-- The step is none of: an oversized object passing the filter, an insertion after the thread has
left, a callback that keeps its object. -/
def Legal (s : St) : Act → Prop
  | .caller i => ∀ c, s.calls[i]? = some c →
      (c.pc = .hwRead → s.cmdthdRunning → c.obj.cmdsz ≤ maxCmdsz) ∧
        (c.pc = .passed → s.thread ≠ .gone)
  | .thread _ => ∀ i res, s.thread = .finish i res →
      ∀ c, s.calls[i]? = some c → CallbackFrees c.obj.cmdcode res
  | _ => True

instance instDecidableCmdLegal (s : St) (a : Act) : Decidable (Legal s a) :=
  match a with
  | .caller i =>
    match h : s.calls[i]? with
    | none => isTrue (by simp [Legal, h])
    | some c =>
      decidable_of_iff ((c.pc = .hwRead → s.cmdthdRunning → c.obj.cmdsz ≤ maxCmdsz) ∧
        (c.pc = .passed → s.thread ≠ .gone)) (by simp [Legal, h])
  | .thread _ =>
    match hth : s.thread with
    | .finish i res =>
      match h : s.calls[i]? with
      | none => isTrue (by simp [Legal, hth, h])
      | some c => decidable_of_iff (CallbackFrees c.obj.cmdcode res) (by simp [Legal, hth, h])
    | .gone | .down | .awake | .peek | .next | .dequeue | .got _ | .exec _ | .post _ _ | .leaving
    | .draining | .drop _ | .dropPost _ | .dropFree _ => isTrue (by simp [Legal, hth])
  | .hwInit _ | .cannotRun _ | .call _ | .timeout _ | .start | .interrupt | .stop => isTrue trivial

/-- A call that has not returned `_SUCCESS` and is not past its insertion is outside. -/
theorem Inv.outside {s : St} (h : Inv s) {i : ℕ} {c : Call} (hc : s.calls[i]? = some c)
    (hacc : ¬Accepted c) : place s i = .outside ∧ Outside c := by
  have hok := h.ok i c hc
  cases hp : place s i <;> rw [hp] at hok
  case outside => exact ⟨rfl, hok⟩
  all_goals exact absurd hok.1 hacc

/-- An object outside has not been put into the queue. -/
theorem Inv.notMem_enqueued {s : St} (h : Inv s) {i : ℕ} (hp : place s i = .outside) :
    i ∉ s.enqueued := by
  rw [h.fifo, List.mem_append, not_or]
  by_cases hq : i ∈ s.cmdQueue
  · rw [place_of_mem_cmdQueue hq] at hp
    cases hp
  refine ⟨fun ht => ?_, hq⟩
  unfold place at hp
  rw [if_neg hq, if_pos ht] at hp
  split at hp
  · split at hp <;> cases hp
  · cases hp

/-- The insertion of an object. -/
theorem Inv.insert {s : St} (h : Inv s) {i : ℕ} {c : Call} (hc : s.calls[i]? = some c)
    (hpc : c.pc = .passed) (hth : s.thread ≠ .gone) :
    Inv { s with
      calls := s.calls.set i { c with pc := .inserted }
      cmdQueue := s.cmdQueue ++ [i]
      enqueued := s.enqueued ++ [i] } := by
  have hlt : i < s.calls.length := (List.getElem?_eq_some_iff.mp hc).1
  obtain ⟨hp, hout⟩ := h.outside hc (by simp [Accepted, hpc])
  simp only [Outside, hpc] at hout
  have hi := h.notMem_enqueued hp
  refine ⟨?_, ?_, ?_, h.holds, fun hg => absurd hg hth, ?_⟩
  · simp only [h.fifo, List.append_assoc]
  · exact h.once.append (List.nodup_singleton i) (by simpa using hi)
  · intro j hj
    rw [List.length_set]
    rcases List.mem_append.mp hj with hj | hj
    · exact h.known j hj
    · rw [List.mem_singleton] at hj
      exact hj ▸ hlt
  · intro j d hj
    dsimp only at hj
    by_cases hij : j = i
    · subst hij
      rw [List.getElem?_set_self hlt] at hj
      obtain rfl := Option.some.inj hj
      rw [place_of_mem_cmdQueue (by simp)]
      exact ⟨⟨Or.inl rfl, hout.2⟩, hout.1⟩
    · rw [List.getElem?_set_ne (Ne.symm hij)] at hj
      have hjq : j ∈ s.cmdQueue ++ [i] ↔ j ∈ s.cmdQueue := by simp [hij]
      have hok := h.ok j d hj
      simpa only [place, hjq] using hok

/-- A new call. -/
theorem Inv.call {s : St} (h : Inv s) (o : Option CmdObj) : Inv (rtwEnqueueCmd s o) := by
  cases o with
  | none => exact h
  | some o =>
    refine ⟨h.fifo, h.once, ?_, h.holds, h.drained, ?_⟩
    · intro j hj
      have := h.known j hj
      simp only [rtwEnqueueCmd, List.length_append]
      omega
    · intro j c hj
      simp only [rtwEnqueueCmd] at hj
      by_cases hlt : j < s.calls.length
      · rw [List.getElem?_append_left hlt] at hj
        exact h.ok j c hj
      · -- the number of the call is new
        have hne : j ∉ s.enqueued := fun he => hlt (h.known j he)
        rw [h.fifo, List.mem_append, not_or] at hne
        obtain rfl : c = ⟨o, .called, o.sctx, false, {}⟩ := by
          rw [List.getElem?_append_right (by omega), List.getElem?_singleton] at hj
          split at hj
          · exact (Option.some.inj hj).symm
          · cases hj
        have hp : place (rtwEnqueueCmd s (some o)) j = .outside := place_outside hne.2 hne.1
        rw [hp]
        exact ⟨⟨rfl, rfl, rfl⟩, ⟨rfl, by simp⟩, rfl, rfl, rfl⟩

/-- A step of a call. -/
theorem Inv.caller {s t : St} (h : Inv s) {i : ℕ} {c : Call} (hc : s.calls[i]? = some c)
    (hlegal : Legal s (.caller i)) (hstep : callerStep s i c = some t) : Inv t := by
  obtain ⟨hsz, hth⟩ := hlegal c hc
  unfold callerStep at hstep
  cases hpc : c.pc with
  | called =>
    rw [hpc] at hstep
    obtain rfl := Option.some.inj hstep
    obtain ⟨hp, hout⟩ := h.outside hc (by simp [Accepted, hpc])
    simp only [Outside, hpc] at hout
    refine h.of_call rfl rfl rfl rfl rfl ?_
    rw [hp]
    dsimp only [Place.Ok, Outside]
    by_cases hhw : (!s.hwInit && !c.obj.allow) = true
    · rw [if_pos hhw]
      exact hout
    · rw [if_neg hhw]
      exact hout
  | hwRead =>
    rw [hpc] at hstep
    obtain rfl := Option.some.inj hstep
    obtain ⟨hp, hout⟩ := h.outside hc (by simp [Accepted, hpc])
    simp only [Outside, hpc] at hout
    refine h.of_call rfl rfl rfl rfl rfl ?_
    rw [hp]
    dsimp only [Place.Ok, Outside]
    by_cases hrun : s.cmdthdRunning = true
    · -- the object fits, so it is not refused with success
      have hle := hsz hpc hrun
      simp only [hrun, Bool.not_true, Bool.false_eq_true, if_false, if_neg (Nat.not_lt.mpr hle)]
      exact ⟨hout, hle⟩
    · simp only [hrun, Bool.not_false, if_true]
      exact hout
  | passed =>
    rw [hpc] at hstep
    obtain rfl := Option.some.inj hstep
    exact h.insert hc hpc (hth hpc)
  | inserted =>
    rw [hpc] at hstep
    obtain rfl := Option.some.inj hstep
    refine h.of_call rfl rfl rfl rfl rfl ?_
    have hok := h.ok i c hc
    cases hp : place s i with
    | outside =>
      rw [hp] at hok
      simp only [Place.Ok, Outside, hpc] at hok
    | queued =>
      rw [hp] at hok
      exact ⟨⟨Or.inr rfl, hok.1.2⟩, hok.2⟩
    | held st =>
      rw [hp] at hok
      refine ⟨⟨Or.inr rfl, hok.1.2⟩, ?_⟩
      cases st <;> exact hok.2
    | settled =>
      rw [hp] at hok
      exact ⟨⟨Or.inr rfl, hok.1.2⟩, hok.2⟩
  | refusing res =>
    rw [hpc] at hstep
    obtain ⟨-, hstep⟩ := Option.ite_none_right_eq_some.mp hstep
    obtain rfl := Option.some.inj hstep
    obtain ⟨hp, hout⟩ := h.outside hc (by simp [Accepted, hpc])
    refine h.of_call rfl rfl rfl rfl rfl ?_
    rw [hp]
    cases res with
    | true => simp only [Outside, hpc] at hout
    | false =>
      simp only [Outside, hpc] at hout
      exact refused_rtwFreeCmdObj hout
  | returned res =>
    rw [hpc] at hstep
    cases hstep

/-- The timeout of a waiter. -/
theorem Inv.timeout {s t : St} (h : Inv s) {i : ℕ} {c : Call} (hc : s.calls[i]? = some c)
    (hstep : waiterTimeout s i c = some t) : Inv t := by
  unfold waiterTimeout at hstep
  obtain ⟨⟨hpc, hsctx, hgave⟩, hstep⟩ := Option.ite_none_right_eq_some.mp hstep
  by_cases hcomp : c.ledger.completed = 0
  · rw [if_pos hcomp] at hstep
    obtain rfl := Option.some.inj hstep
    -- the waiter has not been completed, so the thread is not past that step
    have hno : ¬Completed c := fun hw => by
      rw [Completed, hcomp, hsctx, eq_false_of_ne_true hgave] at hw
      exact absurd hw.1 (by decide)
    have hwait : Waiting { c with sctx := false, gaveUp := true } := ⟨hcomp, by simp⟩
    refine h.of_call rfl rfl rfl rfl rfl ?_
    have hok := h.ok i c hc
    cases hp : place s i with
    | outside =>
      rw [hp] at hok
      simp only [Place.Ok, Outside, hpc] at hok
    | queued =>
      rw [hp] at hok
      exact ⟨hok.1, hok.2.1, hwait, hok.2.2.2⟩
    | held st =>
      rw [hp] at hok
      refine ⟨hok.1, ?_⟩
      cases st with
      | fresh => exact ⟨hok.2.1, hwait, hok.2.2.2⟩
      | judged => exact ⟨hok.2.1, hwait, hok.2.2.2⟩
      | woken => exact absurd hok.2.2.1 hno
    | settled =>
      rw [hp] at hok
      exact absurd hok.2.2.1 hno
  · rw [if_neg hcomp] at hstep
    exact Option.some.inj hstep ▸ h

/-! ## Steps of the thread -/

/-- Every entry of the command table has a handler. -/
theorem cmdHdl_wlancmds {k : ℕ} {cmd : RtwCmd} (h : wlancmds[k]? = some cmd) :
    cmd.cmdHdl = true := by
  have hall : ∀ cmd ∈ wlancmds, cmd.cmdHdl = true := by
    simp only [wlancmds, List.forall_mem_cons, List.not_mem_nil, false_implies, implies_true,
      and_self]
  exact hall cmd (List.mem_of_getElem? h)

/-- An object with an unknown command code has no extra buffer. -/
theorem pbufs_of_unknown {o : CmdObj} (h : wlancmds[o.cmdcode]? = none) : o.pbufs = 0 := by
  have hne : o.cmdcode ≠ cmdSetDrvExtra := by
    intro he
    rw [he] at h
    cases h
  unfold CmdObj.pbufs
  split
  · rw [if_neg fun h => hne h.1]
  · rfl

/-- The object is judged: dropped, or passed on to its handler. -/
theorem Inv.judge {s t : St} (h : Inv s) {i : ℕ} {c : Call} (hc : s.calls[i]? = some c)
    (hth : s.thread = .got i) (hstep : judge s i c = some t) : Inv t := by
  have hst : s.thread.holds = some (i, .fresh) := by rw [hth]; rfl
  obtain ⟨hacc, hfresh⟩ := h.held hst hc
  unfold Cmd.judge at hstep
  dsimp only at hstep
  -- no accepted object is too large
  rw [if_neg (Nat.not_lt.mpr hacc.2)] at hstep
  cases hcmd : wlancmds[c.obj.cmdcode]? with
  | none =>
    rw [hcmd] at hstep
    obtain rfl := Option.some.inj hstep
    exact h.of_thread hst rfl rfl rfl rfl nofun rfl hacc
      (judged_refused hfresh (pbufs_of_unknown hcmd))
  | some cmd =>
    rw [hcmd] at hstep
    dsimp only at hstep
    rw [cmdHdl_wlancmds hcmd, Bool.not_true, if_neg Bool.false_ne_true] at hstep
    by_cases hf : rtwCmdFilter s c.obj = true
    · rw [if_pos hf] at hstep
      obtain rfl := Option.some.inj hstep
      exact h.of_congr rfl rfl rfl rfl (by rw [hst]; rfl) nofun
    · rw [if_neg hf] at hstep
      obtain ⟨-, hstep⟩ := Option.ite_none_right_eq_some.mp hstep
      obtain rfl := Option.some.inj hstep
      exact h.of_thread hst rfl rfl rfl rfl nofun rfl hacc (judged_dropped hfresh)

/-- What a callback that frees its object leaves. -/
theorem postProcess_frees {s t : St} {i res : ℕ} {c : Call}
    (hfrees : CallbackFrees c.obj.cmdcode res) (hstep : postProcess s i c res = some t) :
    t = { s with
      thread := .next
      calls := s.calls.set i { c with ledger := rtwFreeCmdObj c.obj c.ledger } } := by
  unfold postProcess at hstep
  unfold CallbackFrees at hfrees
  obtain ⟨l, hl, rfl⟩ := Option.map_eq_some_iff.mp hstep
  suffices l = rtwFreeCmdObj c.obj c.ledger by rw [this]
  cases hcb : callbackOf c.obj.cmdcode with
  | none =>
    rw [hcb] at hl
    exact (Option.some.inj hl).symm
  | some cb =>
    rw [hcb] at hl hfrees
    cases cb with
    | joinbss => exact (Option.some.inj hl).symm
    | disassoc =>
      simp only [Callback.run, if_pos (show res = h2cSuccess from hfrees)] at hl
      exact (Option.some.inj hl).symm
    | survey => exact hfrees.elim
    | setstaKey =>
      obtain ⟨-, hl⟩ := Option.ite_none_right_eq_some.mp hl
      exact (Option.some.inj hl).symm

/-- A step of the thread. -/
theorem Inv.thread {s t : St} (h : Inv s) {ret : ℕ} (hlegal : Legal s (.thread ret))
    (hstep : rtwCmdThread s ret = some t) : Inv t := by
  unfold rtwCmdThread at hstep
  cases hth : s.thread with
  | gone => rw [hth] at hstep; cases hstep
  | down =>
    rw [hth] at hstep
    obtain ⟨-, hstep⟩ := Option.ite_none_left_eq_some.mp hstep
    obtain rfl := Option.some.inj hstep
    exact h.of_congr rfl rfl rfl rfl (by rw [hth]; rfl) nofun
  | awake =>
    rw [hth] at hstep
    obtain rfl := Option.some.inj hstep
    refine h.of_congr rfl rfl rfl rfl ?_ ?_
    · rw [hth]; cases s.cannotRun <;> rfl
    · cases s.cannotRun <;> nofun
  | peek =>
    rw [hth] at hstep
    obtain rfl := Option.some.inj hstep
    refine h.of_congr rfl rfl rfl rfl ?_ ?_
    · rw [hth]; by_cases hq : s.cmdQueue = [] <;> simp only [hq, if_true, if_false] <;> rfl
    · by_cases hq : s.cmdQueue = [] <;> simp only [hq, if_true, if_false] <;> nofun
  | next =>
    rw [hth] at hstep
    obtain rfl := Option.some.inj hstep
    refine h.of_congr rfl rfl rfl rfl ?_ ?_
    · rw [hth]; cases s.cannotRun <;> rfl
    · cases s.cannotRun <;> nofun
  | dequeue =>
    rw [hth] at hstep
    cases hq : s.cmdQueue with
    | nil =>
      rw [hq] at hstep
      obtain rfl := Option.some.inj hstep
      exact h.of_congr rfl hq.symm rfl rfl (by rw [hth]; rfl) nofun
    | cons i queue =>
      rw [hq] at hstep
      obtain rfl := Option.some.inj hstep
      exact h.of_take hq (by rw [hth]; rfl) rfl rfl rfl rfl nofun rfl
  | got i =>
    rw [hth] at hstep
    obtain ⟨c, hc, hstep⟩ := Option.bind_eq_some_iff.mp hstep
    exact h.judge hc hth hstep
  | exec i =>
    rw [hth] at hstep
    obtain ⟨c, hc, hstep⟩ := Option.bind_eq_some_iff.mp hstep
    have hst : s.thread.holds = some (i, .fresh) := by rw [hth]; rfl
    obtain ⟨hacc, hfresh⟩ := h.held hst hc
    obtain ⟨-, hstep⟩ := Option.ite_none_right_eq_some.mp hstep
    obtain rfl := Option.some.inj hstep
    exact h.of_thread hst rfl rfl rfl rfl nofun rfl hacc (judged_handled hfresh)
  | post i res =>
    rw [hth] at hstep
    obtain ⟨c, hc, rfl⟩ := Option.map_eq_some_iff.mp hstep
    have hst : s.thread.holds = some (i, .judged) := by rw [hth]; rfl
    obtain ⟨hacc, hjudged⟩ := h.held hst hc
    refine h.of_thread hst rfl rfl rfl rfl nofun rfl ?_ (woken_rtwSctxDone hjudged)
    rwa [Accepted, rtwSctxDone_pc, rtwSctxDone_obj]
  | finish i res =>
    have hfrees := hlegal i res hth
    rw [hth] at hstep
    obtain ⟨c, hc, hstep⟩ := Option.bind_eq_some_iff.mp hstep
    have hst : s.thread.holds = some (i, .woken) := by rw [hth]; rfl
    obtain ⟨hacc, hwoken⟩ := h.held hst hc
    obtain rfl := postProcess_frees (hfrees c hc) hstep
    exact h.of_settled hst rfl rfl rfl rfl nofun rfl hacc (settled_rtwFreeCmdObj hwoken)
  | leaving =>
    rw [hth] at hstep
    obtain rfl := Option.some.inj hstep
    exact h.of_congr rfl rfl rfl rfl (by rw [hth]; rfl) nofun
  | draining =>
    rw [hth] at hstep
    cases hq : s.cmdQueue with
    | nil =>
      rw [hq] at hstep
      obtain rfl := Option.some.inj hstep
      exact h.of_congr rfl hq.symm rfl rfl (by rw [hth]; rfl) fun _ => rfl
    | cons i queue =>
      rw [hq] at hstep
      obtain rfl := Option.some.inj hstep
      exact h.of_take hq (by rw [hth]; rfl) rfl rfl rfl rfl nofun rfl
  | drop i =>
    rw [hth] at hstep
    obtain ⟨c, hc, hstep⟩ := Option.bind_eq_some_iff.mp hstep
    have hst : s.thread.holds = some (i, .fresh) := by rw [hth]; rfl
    obtain ⟨hacc, hfresh⟩ := h.held hst hc
    obtain ⟨-, hstep⟩ := Option.ite_none_right_eq_some.mp hstep
    obtain rfl := Option.some.inj hstep
    exact h.of_thread hst rfl rfl rfl rfl nofun rfl hacc (judged_dropped hfresh)
  | dropPost i =>
    rw [hth] at hstep
    obtain ⟨c, hc, rfl⟩ := Option.map_eq_some_iff.mp hstep
    have hst : s.thread.holds = some (i, .judged) := by rw [hth]; rfl
    obtain ⟨hacc, hjudged⟩ := h.held hst hc
    refine h.of_thread hst rfl rfl rfl rfl nofun rfl ?_ (woken_rtwSctxDone hjudged)
    rwa [Accepted, rtwSctxDone_pc, rtwSctxDone_obj]
  | dropFree i =>
    rw [hth] at hstep
    obtain ⟨c, hc, rfl⟩ := Option.map_eq_some_iff.mp hstep
    have hst : s.thread.holds = some (i, .woken) := by rw [hth]; rfl
    obtain ⟨hacc, hwoken⟩ := h.held hst hc
    exact h.of_settled hst rfl rfl rfl rfl nofun rfl hacc (settled_rtwFreeCmdObj hwoken)

/-- A legal step keeps the invariant. -/
theorem Inv.step {s t : St} {a : Act} (h : Inv s) (hlegal : Legal s a) (hs : step s a = some t) :
    Inv t := by
  cases a with
  | hwInit b =>
    obtain rfl := Option.some.inj hs
    exact h.of_congr rfl rfl rfl rfl rfl h.drained
  | cannotRun b =>
    obtain rfl := Option.some.inj hs
    exact h.of_congr rfl rfl rfl rfl rfl h.drained
  | call o => exact Option.some.inj hs ▸ h.call o
  | caller i =>
    obtain ⟨c, hc, hs⟩ := Option.bind_eq_some_iff.mp hs
    exact h.caller hc hlegal hs
  | timeout i =>
    obtain ⟨c, hc, hs⟩ := Option.bind_eq_some_iff.mp hs
    exact h.timeout hc hs
  | start =>
    obtain ⟨hth, hs⟩ := Option.ite_none_right_eq_some.mp hs
    obtain rfl := Option.some.inj hs
    exact h.of_congr rfl rfl rfl rfl (by rw [hth]; rfl) nofun
  | thread ret => exact h.thread hlegal hs
  | interrupt =>
    obtain ⟨hth, hs⟩ := Option.ite_none_right_eq_some.mp hs
    obtain rfl := Option.some.inj hs
    exact h.of_congr rfl rfl rfl rfl (by rw [hth]; rfl) nofun
  | stop =>
    obtain rfl := Option.some.inj hs
    exact h.of_congr rfl rfl rfl rfl rfl h.drained

theorem inv_rtwInitCmdPriv : Inv rtwInitCmdPriv where
  fifo := rfl
  once := List.nodup_nil
  known := nofun
  holds := nofun
  drained := fun _ => rfl
  ok := fun _ _ h => absurd h (by simp [rtwInitCmdPriv])

end Rtl88x2cu.Core.Cmd
