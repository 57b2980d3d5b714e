import Rtl88x2cu.Core.CmdThread

/-!
# Runs of the command queue

`cmdQueue_run` is the law of the queue over all runs of callers and thread: no wake-up is lost, and
every object is taken, handled or dropped, completed and freed as it should.
-/

namespace Rtl88x2cu.Core.Cmd

/-! ## Wake-ups -/

/-- The thread does not sleep over a queue with an object in it: the semaphore is up, or a call that
has inserted its object is about to raise it. -/
def Wake (s : St) : Prop :=
  s.thread = .down → s.cmdQueue ≠ [] →
    0 < s.cmdQueueSema ∨ ∃ (i : ℕ) (c : Call), s.calls[i]? = some c ∧ c.pc = .inserted

theorem wake_of_thread {s : St} (h : s.thread ≠ .down) : Wake s := fun hd => absurd hd h

theorem wake_of_nil {s : St} (h : s.cmdQueue = []) : Wake s := fun _ hq => absurd h hq

/-- A step of a call that is not about to raise the semaphore. -/
theorem Wake.of_set {s t : St} (h : Wake s) {i : ℕ} {c d : Call} (hc : s.calls[i]? = some c)
    (hpc : c.pc ≠ .inserted) (hth : t.thread = s.thread) (hq : t.cmdQueue = s.cmdQueue)
    (hsema : t.cmdQueueSema = s.cmdQueueSema) (hcalls : t.calls = s.calls.set i d) : Wake t := by
  intro hd hne
  rcases h (hth ▸ hd) (hq ▸ hne) with hpos | ⟨j, e, he, hepc⟩
  · exact Or.inl (hsema ▸ hpos)
  · have hij : i ≠ j := by
      rintro rfl
      rw [hc] at he
      exact hpc (Option.some.inj he ▸ hepc)
    exact Or.inr ⟨j, e, by rw [hcalls, List.getElem?_set_ne hij, he], hepc⟩

theorem Wake.caller {s t : St} (h : Wake s) {i : ℕ} {c : Call} (hc : s.calls[i]? = some c)
    (hstep : callerStep s i c = some t) : Wake t := by
  unfold callerStep at hstep
  cases hpc : c.pc with
  | called =>
    rw [hpc] at hstep
    obtain rfl := Option.some.inj hstep
    exact h.of_set hc (by simp [hpc]) rfl rfl rfl rfl
  | hwRead =>
    rw [hpc] at hstep
    obtain rfl := Option.some.inj hstep
    exact h.of_set hc (by simp [hpc]) rfl rfl rfl rfl
  | passed =>
    rw [hpc] at hstep
    obtain rfl := Option.some.inj hstep
    exact fun _ _ => Or.inr
      ⟨i, _, List.getElem?_set_self (List.getElem?_eq_some_iff.mp hc).1, rfl⟩
  | inserted =>
    rw [hpc] at hstep
    obtain rfl := Option.some.inj hstep
    exact fun _ _ => Or.inl (Nat.succ_pos _)
  | refusing res =>
    rw [hpc] at hstep
    obtain ⟨-, hstep⟩ := Option.ite_none_right_eq_some.mp hstep
    obtain rfl := Option.some.inj hstep
    exact h.of_set hc (by simp [hpc]) rfl rfl rfl rfl
  | returned res =>
    rw [hpc] at hstep
    cases hstep

theorem Wake.timeout {s t : St} (h : Wake s) {i : ℕ} {c : Call} (hc : s.calls[i]? = some c)
    (hstep : waiterTimeout s i c = some t) : Wake t := by
  unfold waiterTimeout at hstep
  obtain ⟨⟨hpc, -⟩, hstep⟩ := Option.ite_none_right_eq_some.mp hstep
  split at hstep
  · obtain rfl := Option.some.inj hstep
    exact h.of_set hc (by simp [hpc]) rfl rfl rfl rfl
  · exact Option.some.inj hstep ▸ h

/-- The thread goes to sleep only over an empty queue. -/
theorem wake_rtwCmdThread {s t : St} {ret : ℕ} (hstep : rtwCmdThread s ret = some t) : Wake t := by
  unfold rtwCmdThread at hstep
  cases hth : s.thread <;> rw [hth] at hstep <;> dsimp only at hstep
  case gone => cases hstep
  case down =>
    obtain ⟨-, hstep⟩ := Option.ite_none_left_eq_some.mp hstep
    exact Option.some.inj hstep ▸ wake_of_thread nofun
  case awake =>
    obtain rfl := Option.some.inj hstep
    exact wake_of_thread (by cases s.cannotRun <;> nofun)
  case peek =>
    obtain rfl := Option.some.inj hstep
    by_cases hq : s.cmdQueue = []
    · exact wake_of_nil hq
    · exact wake_of_thread (by rw [if_neg hq]; nofun)
  case next =>
    obtain rfl := Option.some.inj hstep
    exact wake_of_thread (by cases s.cannotRun <;> nofun)
  case dequeue =>
    cases hq : s.cmdQueue with
    | nil => rw [hq] at hstep; exact Option.some.inj hstep ▸ wake_of_nil rfl
    | cons i queue => rw [hq] at hstep; exact Option.some.inj hstep ▸ wake_of_thread nofun
  case got i =>
    obtain ⟨c, -, hstep⟩ := Option.bind_eq_some_iff.mp hstep
    refine wake_of_thread ?_
    unfold judge at hstep
    dsimp only at hstep
    split at hstep
    · obtain rfl := Option.some.inj hstep
      nofun
    · split at hstep
      · obtain rfl := Option.some.inj hstep
        nofun
      · split_ifs at hstep <;> obtain rfl := Option.some.inj hstep <;> nofun
  case exec i =>
    obtain ⟨c, -, hstep⟩ := Option.bind_eq_some_iff.mp hstep
    obtain ⟨-, hstep⟩ := Option.ite_none_right_eq_some.mp hstep
    exact Option.some.inj hstep ▸ wake_of_thread nofun
  case post i res =>
    obtain ⟨c, -, rfl⟩ := Option.map_eq_some_iff.mp hstep
    exact wake_of_thread nofun
  case finish i res =>
    obtain ⟨c, -, hstep⟩ := Option.bind_eq_some_iff.mp hstep
    obtain ⟨l, -, rfl⟩ := Option.map_eq_some_iff.mp hstep
    exact wake_of_thread nofun
  case leaving => exact Option.some.inj hstep ▸ wake_of_thread nofun
  case draining =>
    cases hq : s.cmdQueue with
    | nil => rw [hq] at hstep; exact Option.some.inj hstep ▸ wake_of_nil rfl
    | cons i queue => rw [hq] at hstep; exact Option.some.inj hstep ▸ wake_of_thread nofun
  case drop i =>
    obtain ⟨c, -, hstep⟩ := Option.bind_eq_some_iff.mp hstep
    obtain ⟨-, hstep⟩ := Option.ite_none_right_eq_some.mp hstep
    exact Option.some.inj hstep ▸ wake_of_thread nofun
  case dropPost i =>
    obtain ⟨c, -, rfl⟩ := Option.map_eq_some_iff.mp hstep
    exact wake_of_thread nofun
  case dropFree i =>
    obtain ⟨c, -, rfl⟩ := Option.map_eq_some_iff.mp hstep
    exact wake_of_thread nofun

theorem Wake.step {s t : St} {a : Act} (h : Wake s) (hinv : Inv s) (hs : step s a = some t) :
    Wake t := by
  cases a with
  | hwInit b => exact Option.some.inj hs ▸ h
  | cannotRun b => exact Option.some.inj hs ▸ h
  | call o =>
    obtain rfl := Option.some.inj hs
    cases o with
    | none => exact h
    | some o =>
      intro hd hne
      refine (h hd hne).imp_right ?_
      rintro ⟨i, c, hc, hpc⟩
      exact ⟨i, c, by
        rw [rtwEnqueueCmd, List.getElem?_append_left (List.getElem?_eq_some_iff.mp hc).1, hc], hpc⟩
  | caller i =>
    obtain ⟨c, hc, hs⟩ := Option.bind_eq_some_iff.mp hs
    exact h.caller hc hs
  | timeout i =>
    obtain ⟨c, hc, hs⟩ := Option.bind_eq_some_iff.mp hs
    exact h.timeout hc hs
  | start =>
    obtain ⟨hth, hs⟩ := Option.ite_none_right_eq_some.mp hs
    exact Option.some.inj hs ▸ wake_of_nil (hinv.drained hth)
  | thread ret => exact wake_rtwCmdThread hs
  | interrupt =>
    obtain ⟨-, hs⟩ := Option.ite_none_right_eq_some.mp hs
    exact Option.some.inj hs ▸ wake_of_thread fun h => by cases h
  | stop =>
    obtain rfl := Option.some.inj hs
    exact fun _ _ => Or.inl (Nat.succ_pos _)

/-! ## Runs -/

/-- The law of the command queue. An object whose call returned `_SUCCESS` is put into the queue
once and taken in that order, `woken` and `drained` being the states in which all have been taken;
until it is taken nothing is done to it, and when the thread is done with it it is settled. An
object whose call returned `_FAIL` never enters the queue and is freed once. -/
structure Law (s : St) : Prop where
  fifo : s.enqueued = s.taken ++ s.cmdQueue
  once : s.enqueued.Nodup
  accepted : ∀ i c, s.calls[i]? = some c → c.pc = .returned true → i ∈ s.enqueued
  queued : ∀ i c, s.calls[i]? = some c → i ∈ s.cmdQueue → Fresh c
  held : ∀ i st c, s.calls[i]? = some c → s.thread.holds = some (i, st) → st.Ok c
  settled : ∀ i c, s.calls[i]? = some c → i ∈ s.taken →
    (∀ st, s.thread.holds ≠ some (i, st)) → Settled c
  refused : ∀ i c, s.calls[i]? = some c → c.pc = .returned false → i ∉ s.enqueued ∧ Refused c
  woken : s.thread = .down → s.cmdQueueSema = 0 →
    (∀ (i : ℕ) (c : Call), s.calls[i]? = some c → c.pc ≠ .inserted) → s.cmdQueue = []
  drained : s.thread = .gone → s.cmdQueue = []

theorem Inv.law {s : St} (h : Inv s) (hw : Wake s) : Law s where
  fifo := h.fifo
  once := h.once
  accepted i c hc hpc := by
    by_contra hi
    have hout : place s i = .outside := by
      rw [h.fifo, List.mem_append, not_or] at hi
      exact place_outside hi.2 hi.1
    have hok := h.ok i c hc
    rw [hout] at hok
    simp only [Place.Ok, Outside, hpc] at hok
  queued i c hc hq := by
    have hok := h.ok i c hc
    rw [place_of_mem_cmdQueue hq] at hok
    exact hok.2
  held i st c hc hst := (h.held hst hc).2
  settled i c hc ht hst := by
    have hok := h.ok i c hc
    rw [place_settled (h.notMem_cmdQueue ht) ht hst] at hok
    exact hok.2
  refused i c hc hpc := by
    obtain ⟨hp, hout⟩ := h.outside hc (by simp [Accepted, hpc])
    simp only [Outside, hpc] at hout
    exact ⟨h.notMem_enqueued hp, hout⟩
  woken hd hsema hcalls := by
    by_contra hq
    rcases hw hd hq with hpos | ⟨i, c, hc, hpc⟩
    · omega
    · exact hcalls i c hc hpc
  drained := h.drained

/-- In every run of legal steps the law holds in every state reached. -/
theorem cmdQueue_run {as : List Act} {s : St} (hlegal : Guarded step Legal rtwInitCmdPriv as)
    (hs : run step rtwInitCmdPriv as = some s) : Law s := by
  have h : Inv s ∧ Wake s := run_preserves (fun s => Inv s ∧ Wake s)
    (fun _ _ _ hi hok hs => ⟨hi.1.step hok hs, hi.2.step hi.1 hs⟩)
    ⟨inv_rtwInitCmdPriv, wake_of_nil rfl⟩ hlegal hs
  exact h.1.law h.2

/-- A callback that does not free its object leaves it as it was. -/
theorem postProcess_keeps {s t : St} {i res : ℕ} {c : Call}
    (hkeeps : ¬CallbackFrees c.obj.cmdcode res) (hstep : postProcess s i c res = some t) :
    t = { s with thread := .next, calls := s.calls.set i c } := by
  unfold postProcess at hstep
  unfold CallbackFrees at hkeeps
  obtain ⟨l, hl, rfl⟩ := Option.map_eq_some_iff.mp hstep
  suffices l = c.ledger by rw [this]
  cases hcb : callbackOf c.obj.cmdcode with
  | none => simp [hcb] at hkeeps
  | some cb =>
    rw [hcb] at hl hkeeps
    cases cb with
    | joinbss => simp at hkeeps
    | disassoc =>
      simp only [Callback.run, if_neg (show ¬res = h2cSuccess from hkeeps)] at hl
      exact (Option.some.inj hl).symm
    | survey => exact (Option.some.inj hl).symm
    | setstaKey => simp at hkeeps

/-- After a step that is not legal the law fails, at the latest when the call it belongs to returns:
the condition of `cmdQueue_run` leaves out nothing else. -/
theorem not_law_of_illegal {s t : St} {a : Act} (h : Inv s) (hs : step s a = some t)
    (hillegal : ¬Legal s a) : ∃ as, ∀ u, run step t as = some u → ¬Law u := by
  cases a with
  | caller i =>
    obtain ⟨c, hc, hs⟩ := Option.bind_eq_some_iff.mp hs
    have hlt : i < s.calls.length := (List.getElem?_eq_some_iff.mp hc).1
    simp only [Legal, hc, Option.some.injEq, forall_eq', not_and_or, Classical.not_imp,
      not_not] at hillegal
    unfold callerStep at hs
    rcases hillegal with ⟨hpc, hrun, hsz⟩ | ⟨hpc, hth⟩
    · -- the call returns `_SUCCESS` for an object that it has freed
      rw [hpc] at hs
      obtain rfl := Option.some.inj hs
      obtain ⟨hp, -⟩ := h.outside hc (by simp [Accepted, hpc])
      have hi := h.notMem_enqueued hp
      refine ⟨[.caller i], fun u hu hlaw => hi ?_⟩
      obtain ⟨v, hv, hu⟩ := Option.bind_eq_some_iff.mp hu
      obtain ⟨d, hd, hv⟩ := Option.bind_eq_some_iff.mp hv
      dsimp only at hd
      rw [List.getElem?_set_self hlt] at hd
      obtain rfl := Option.some.inj hd
      obtain rfl := Option.some.inj hu
      have hsz : c.obj.cmdsz > maxCmdsz := Nat.not_le.mp hsz
      unfold callerStep at hv
      simp only [hrun, Bool.not_true, Bool.false_eq_true, if_false, hsz, if_true] at hv
      obtain ⟨-, hv⟩ := Option.ite_none_right_eq_some.mp hv
      obtain rfl := Option.some.inj hv
      exact hlaw.accepted i _ (List.getElem?_set_self (by rwa [List.length_set])) rfl
    · rw [hpc] at hs
      obtain rfl := Option.some.inj hs
      refine ⟨[], fun u hu hlaw => ?_⟩
      obtain rfl := Option.some.inj hu
      exact absurd (hlaw.drained hth) (by simp)
  | thread ret =>
    simp only [Legal, not_forall] at hillegal
    obtain ⟨i, res, hth, c, hc, hkeeps⟩ := hillegal
    have hst : s.thread.holds = some (i, .woken) := by rw [hth]; rfl
    obtain ⟨-, hwoken⟩ := h.held hst hc
    refine ⟨[], fun u hu hlaw => ?_⟩
    obtain rfl := Option.some.inj hu
    simp only [Cmd.step, rtwCmdThread, hth, hc, Option.bind_some] at hs
    obtain rfl := postProcess_keeps hkeeps hs
    -- the object has left the thread unfreed
    have hlt : i < s.calls.length := (List.getElem?_eq_some_iff.mp hc).1
    have hset := hlaw.settled i c (List.getElem?_set_self hlt) (h.holds i _ hst)
      fun _ h => by cases h
    exact absurd (hset.2.2.1.symm.trans hwoken.2.2.1) (by decide)
  | hwInit b => exact absurd trivial hillegal
  | cannotRun b => exact absurd trivial hillegal
  | call o => exact absurd trivial hillegal
  | timeout i => exact absurd trivial hillegal
  | start => exact absurd trivial hillegal
  | interrupt => exact absurd trivial hillegal
  | stop => exact absurd trivial hillegal

/-- A command without parameters that is waited for. -/
def plainCmd : CmdObj := ⟨2, .null, 0, false, 0, true, false⟩

/-- The command is put into the queue, handled and freed, and the thread leaves. -/
def oneCommand : List Act :=
  [.hwInit true, .start, .call (some plainCmd), .caller 0, .caller 0, .caller 0, .caller 0,
    .thread 0, .thread 0, .thread 0, .thread 0, .thread 0, .thread 0, .thread 0, .thread 0,
    .thread 0, .cannotRun true, .thread 0, .thread 0, .thread 0]

theorem cmdQueue_run_oneCommand :
    ∃ s, run step rtwInitCmdPriv oneCommand = some s ∧ Law s ∧ s.taken = [0] :=
  ⟨_, rfl,
    cmdQueue_run (show Guarded step Legal rtwInitCmdPriv oneCommand by decide) rfl, rfl⟩

/-- A call passes the filter; the thread clears the flag, drains the empty queue and leaves; the
call inserts its object. -/
def lateInsert : List Act :=
  [.hwInit true, .start, .call (some plainCmd), .caller 0, .caller 0, .cannotRun true, .stop,
    .thread 0, .thread 0, .thread 0, .thread 0, .caller 0, .caller 0]

/-- An accepted command stays in the queue after the thread has drained it and left. -/
theorem lateInsert_not_drained :
    ∃ s, run step rtwInitCmdPriv lateInsert = some s ∧ s.thread = .gone ∧ s.cmdQueue = [0] ∧
      (s.calls.map Call.pc) = [.returned true] ∧ ¬Law s :=
  ⟨_, rfl, rfl, rfl, rfl, fun h => absurd (h.drained rfl) (by decide)⟩

end Rtl88x2cu.Core.Cmd
