import Rtl88x2cu.Lib.Run
import Rtl88x2cu.Lib.BitArray
import Rtl88x2cu.PhlQueue
import Rtl88x2cu.Dispatcher.Phases
import Rtl88x2cu.Dispatcher.Model

/-!
# Command dispatcher: registration of background modules

`dispr_register_module`, `dispr_deregister_module`, `dispr_start` and `dispr_stop` of
`phl/phl_cmd_dispatcher.c`, with `dispr_module_start` and `dispr_module_stop`, which start and stop
the modules that are registered. The bitmaps are the arrays of bytes of the source. The outcomes of
the callbacks of a module are parameters of the events.

A registration that fails in a callback of the module frees the module and leaves it linked in its
queue. The node stays in the model, marked as freed, and nothing that walks over it has a defined
outcome.

`registry_wf` is the result for the registered modules. It needs that a registration that gets past
the checks finds no module with the same id, which the checks ensure only for a started module whose
id is a multiple of 8, and that its callbacks succeed (`registration_goes_wrong`).
-/

namespace Rtl88x2cu.Dispatcher

/-! ## Bitmaps of modules -/

/-- A bitmap of modules, an array of `u8`. -/
abbrev Bitmap := ℕ → BitVec 8

namespace Registry

/-- `_chk_bitmap_bit`: the byte of the module, masked with its bit. -/
def chkBitmapBit (bitmap : Bitmap) (id : ℕ) : ℕ :=
  (bitmap (id / 8) &&& BitVec.twoPow 8 (id % 8)).toNat

/-- `_add_bitmap_bit` for one id. -/
def addBitmapBit (bitmap : Bitmap) (id : ℕ) : Bitmap :=
  Function.update bitmap (id / 8) (bitmap (id / 8) ||| BitVec.twoPow 8 (id % 8))

/-- `_clr_bitmap_bit` for one id. -/
def clrBitmapBit (bitmap : Bitmap) (id : ℕ) : Bitmap :=
  Function.update bitmap (id / 8) (bitmap (id / 8) &&& ~~~ BitVec.twoPow 8 (id % 8))

end Registry

/-! ## Modules -/

/-- `struct phl_bk_module`: the id and the status flags; `freed` marks memory that has been given
back. -/
structure RegModule where
  id : ℕ
  init : Bool := false
  started : Bool := false
  freed : Bool := false
  deriving DecidableEq, Repr

/-- `bk_module_init`; `ok` is the outcome of the callback. -/
def bkModuleInit (m : RegModule) (ok : Bool) : Bool × RegModule :=
  if m.init then (false, m) else if ok then (true, { m with init := true }) else (false, m)

/-- `bk_module_deinit`. -/
def bkModuleDeinit (m : RegModule) : RegModule := { m with init := false }

/-- `bk_module_start`; `ok` is the outcome of the callback. -/
def bkModuleStart (m : RegModule) (ok : Bool) : Bool × RegModule :=
  if !m.init || m.started then (false, m)
  else if ok then (true, { m with started := true }) else (false, m)

/-- `bk_module_stop`, whose result is not used here. -/
def bkModuleStop (m : RegModule) : RegModule := { m with started := false }

/-- The part of `struct cmd_dispatcher` that concerns the modules; `started` and `ctrlPresent` are
the flags `DISPR_STARTED` and `DISPR_CTRL_PRESENT` of its status. -/
structure Registry where
  started : Bool
  ctrlPresent : Bool
  controller : RegModule
  moduleQ : Priority → PhlQueue RegModule
  bitmap : Bitmap
  basemap : Bitmap

namespace Registry

/-- The state after `dispr_init`; the controller may have failed to initialise. -/
def disprInit (ctrlOk : Bool) : Registry where
  started := false
  ctrlPresent := false
  controller := (bkModuleInit { id := phlMdlPhyMgnt } ctrlOk).2
  moduleQ := fun _ => pqInit
  bitmap := fun _ => 0
  basemap := fun _ => 0

/-- Replace one queue of modules. -/
def setQueue (g : Registry) (p : Priority) (q : PhlQueue RegModule) : Registry :=
  { g with moduleQ := Function.update g.moduleQ p q }

/-- `dispr_start`, as far as it concerns modules. -/
def disprStart (g : Registry) (ctrlOk : Bool) : RtwPhlStatus × Registry :=
  if g.started then (.unexpectedError, g)
  else
    match bkModuleStart g.controller ctrlOk with
    | (true, m) => (.success, { g with started := true, controller := m, ctrlPresent := true })
    | (false, m) => (.success, { g with started := true, controller := m })

/-- `dispr_stop`, as far as it concerns modules. -/
def disprStop (g : Registry) : RtwPhlStatus × Registry :=
  if !g.started then (.unexpectedError, g)
  else (.success, { g with
    started := false, ctrlPresent := false, controller := bkModuleStop g.controller })

/-- What the caller and the system decide in a registration: the ops are complete
(`chk_module_ops`), the memory is there, and the callbacks succeed. -/
structure RegOutcome where
  opsOk : Bool
  allocOk : Bool
  initOk : Bool
  startOk : Bool
  deriving DecidableEq, Repr

/-- The new module of a registration after its callbacks, and whether they succeeded. -/
def startNew (g : Registry) (id : ℕ) (o : RegOutcome) : Bool × RegModule :=
  match bkModuleInit { id := id } o.initOk with
  | (true, m) => if g.started then bkModuleStart m o.startOk else (true, m)
  | (false, m) => (false, m)

/-- The bits that a successful registration sets. -/
def addBits (g : Registry) (id : ℕ) (p : Priority) : Registry :=
  if g.started then { g with
    bitmap := addBitmapBit g.bitmap id
    basemap := if p ≠ .optional then addBitmapBit g.basemap id else g.basemap }
  else g

/-- `dispr_register_module`. The new module is in the queue before its callbacks are called, and
stays there when they fail. -/
def disprRegisterModule (g : Registry) (id : ℕ) (o : RegOutcome) : RtwPhlStatus × Registry :=
  match getMdlPriority id with
  | none => (.failure, g)
  | some p =>
    if !o.opsOk || chkBitmapBit g.bitmap id == 1 then (.failure, g)
    else if !o.allocOk then (.failure, g)
    else
      match startNew g id o with
      | (true, m) => (.success, (g.setQueue p (pqPush (g.moduleQ p) m)).addBits id p)
      | (false, m) => (.failure, g.setQueue p
          (pqPush (g.moduleQ p) { bkModuleDeinit m with freed := true }))

/-- `pq_search_node` for an id. -/
def searchMdl (q : PhlQueue RegModule) (id : ℕ) : Option RegModule :=
  if 0 < q.cnt then q.queue.find? fun m => m.id == id else none

/-- `dispr_deregister_module`. The module is stopped, deinitialised and freed. -/
def disprDeregisterModule (g : Registry) (id : ℕ) : RtwPhlStatus × Registry :=
  match getMdlPriority id with
  | none => (.failure, g)
  | some p =>
    match searchMdl (g.moduleQ p) id with
    | none => (.failure, g)
    | some m => (.success, { g.setQueue p (pqDelNode (g.moduleQ p) m) with
        bitmap := clrBitmapBit g.bitmap m.id
        basemap := clrBitmapBit g.basemap m.id })

/-- One module in the loop of `dispr_module_start`; `startOk` is the outcome of its callback. -/
def moduleStart (g : Registry) (startOk : ℕ → Bool) (p : Priority) (m : RegModule) :
    Registry × RegModule :=
  match bkModuleStart m (startOk m.id) with
  | (true, m') => ({ g with
      bitmap := addBitmapBit g.bitmap m.id
      basemap := if p ≠ .optional then addBitmapBit g.basemap m.id else g.basemap }, m')
  | (false, m') => (g, m')

/-- One queue in `dispr_module_start`: the bits of the modules that were started, and the queue with
the modules in their new states. -/
def queueStart (g : Registry) (startOk : ℕ → Bool) (p : Priority) : Registry :=
  let g' := (g.moduleQ p).queue.foldl (fun g m => (g.moduleStart startOk p m).1) g
  g'.setQueue p { g.moduleQ p with
    queue := (g.moduleQ p).queue.map fun m => (bkModuleStart m (startOk m.id)).2 }

/-- `dispr_module_start`. -/
def disprModuleStart (g : Registry) (startOk : ℕ → Bool) : RtwPhlStatus × Registry :=
  if !g.started then (.unexpectedError, g)
  else (.success, [Priority.role, .optional, .mandatory].foldl
    (fun g p => g.queueStart startOk p) g)

/-- One queue in `dispr_module_stop`. -/
def queueStop (g : Registry) (p : Priority) : Registry :=
  { g.setQueue p { g.moduleQ p with queue := (g.moduleQ p).queue.map bkModuleStop } with
    bitmap := (g.moduleQ p).queue.foldl (fun b m => clrBitmapBit b m.id) g.bitmap
    basemap := (g.moduleQ p).queue.foldl (fun b m => clrBitmapBit b m.id) g.basemap }

/-- `dispr_module_stop`. -/
def disprModuleStop (g : Registry) : RtwPhlStatus × Registry :=
  if !g.started then (.unexpectedError, g)
  else (.success, [Priority.role, .optional, .mandatory].foldl queueStop g)

/-- `get_module_by_id`. -/
def getModuleById (g : Registry) (id : ℕ) : Option RegModule :=
  if isDisprCtrl id then
    if g.ctrlPresent then some g.controller else none
  else if chkBitmapBit g.bitmap id = 0 then none
  else [Priority.role, .optional, .mandatory].findSome? fun p => searchMdl (g.moduleQ p) id

/-! ## Runs -/

/-- The calls to the dispatcher. -/
inductive Event
  | start (ctrlOk : Bool)
  | stop
  | register (id : ℕ) (o : RegOutcome)
  | deregister (id : ℕ)
  | moduleStart (startOk : ℕ → Bool)
  | moduleStop

/-- No freed module is linked in the queue. -/
def QueueLive (q : PhlQueue RegModule) : Prop := ∀ m ∈ q.queue, m.freed = false

instance (q : PhlQueue RegModule) : Decidable (QueueLive q) :=
  inferInstanceAs (Decidable (∀ m ∈ _, _))

/-- No freed module is linked in the queue of the id's priority. -/
def IdLive (g : Registry) (id : ℕ) : Prop := ∀ p ∈ getMdlPriority id, QueueLive (g.moduleQ p)

instance (g : Registry) (id : ℕ) : Decidable (g.IdLive id) :=
  inferInstanceAs (Decidable (∀ p ∈ _, _))

/-- No freed module is linked in any queue. -/
def AllLive (g : Registry) : Prop :=
  QueueLive (g.moduleQ .role) ∧ QueueLive (g.moduleQ .optional) ∧
    QueueLive (g.moduleQ .mandatory)

instance (g : Registry) : Decidable g.AllLive := inferInstanceAs (Decidable (_ ∧ _ ∧ _))

/-- One call. A call that would walk over freed memory has no outcome. -/
def step (g : Registry) : Event → Option Registry
  | .start ctrlOk => some (g.disprStart ctrlOk).2
  | .stop => some g.disprStop.2
  | .register id o => if g.IdLive id then some (g.disprRegisterModule id o).2 else none
  | .deregister id => if g.IdLive id then some (g.disprDeregisterModule id).2 else none
  | .moduleStart startOk => if g.AllLive then some (g.disprModuleStart startOk).2 else none
  | .moduleStop => if g.AllLive then some g.disprModuleStop.2 else none

/-! ## Bits -/

/-- The bit of the module is set. -/
def HasBit (bitmap : Bitmap) (id : ℕ) : Prop := chkBitmapBit bitmap id ≠ 0

instance (bitmap : Bitmap) (id : ℕ) : Decidable (HasBit bitmap id) :=
  inferInstanceAs (Decidable (_ ≠ _))

theorem hasBit_iff (bitmap : Bitmap) (id : ℕ) :
    HasBit bitmap id ↔ BitArray.test bitmap id = true :=
  BitArray.mask_ne_zero_iff bitmap id

@[simp]
theorem hasBit_add (bitmap : Bitmap) (id id' : ℕ) :
    HasBit (addBitmapBit bitmap id) id' ↔ id' = id ∨ HasBit bitmap id' := by
  have htest := BitArray.test_set (by decide) bitmap id id'
  rw [hasBit_iff, hasBit_iff, show addBitmapBit bitmap id = BitArray.set bitmap id from rfl, htest,
    Bool.or_eq_true, decide_eq_true_iff]

@[simp]
theorem hasBit_clr (bitmap : Bitmap) (id id' : ℕ) :
    HasBit (clrBitmapBit bitmap id) id' ↔ id' ≠ id ∧ HasBit bitmap id' := by
  have htest := BitArray.test_clear (by decide) bitmap id id'
  rw [hasBit_iff, hasBit_iff, show clrBitmapBit bitmap id = BitArray.clear bitmap id from rfl,
    htest, Bool.and_eq_true, Bool.not_eq_true', decide_eq_false_iff_not]

/-- The bits after a run of `_clr_bitmap_bit` over the modules of a list. -/
theorem hasBit_clr_foldl (l : List RegModule) (bitmap : Bitmap) (id : ℕ) :
    HasBit (l.foldl (fun b m => clrBitmapBit b m.id) bitmap) id ↔
      (∀ m ∈ l, m.id ≠ id) ∧ HasBit bitmap id := by
  induction l generalizing bitmap with
  | nil => simp
  | cons m l ih =>
    rw [List.foldl_cons, ih, hasBit_clr, List.forall_mem_cons, ne_comm (a := id)]
    tauto

/-! ## The registered modules -/

/-- The registered modules are in order: each is in the queue of its priority, no two have the same
id, the counters are right, no memory has been given back, and a bit is set only for a module that
is present and started. -/
structure Good (g : Registry) : Prop where
  wf (p : Priority) : (g.moduleQ p).Wf
  placed {p : Priority} {m : RegModule} : m ∈ (g.moduleQ p).queue → getMdlPriority m.id = some p
  ids (p : Priority) : ((g.moduleQ p).queue.map RegModule.id).Nodup
  live (p : Priority) : QueueLive (g.moduleQ p)
  bits {id : ℕ} : HasBit g.bitmap id →
    ∃ p, ∃ m ∈ (g.moduleQ p).queue, m.id = id ∧ m.started = true

theorem good_init (ctrlOk : Bool) : Good (disprInit ctrlOk) where
  wf _ := rfl
  placed hm := by cases hm
  ids _ := List.nodup_nil
  live _ m hm := by cases hm
  bits {id} hid := by simp [HasBit, chkBitmapBit, disprInit] at hid

@[simp]
theorem setQueue_self (g : Registry) (p : Priority) (q : PhlQueue RegModule) :
    (g.setQueue p q).moduleQ p = q := Function.update_self ..

theorem setQueue_of_ne (g : Registry) {p p' : Priority} (h : p' ≠ p) (q : PhlQueue RegModule) :
    (g.setQueue p q).moduleQ p' = g.moduleQ p' := Function.update_of_ne h ..

/-- Exchange one queue and the bitmap. -/
theorem Good.setQueue {g g' : Registry} (h : Good g) {p : Priority} {q : PhlQueue RegModule}
    (hq : g'.moduleQ = (g.setQueue p q).moduleQ) (hwf : q.Wf)
    (hplaced : ∀ m ∈ q.queue, getMdlPriority m.id = some p)
    (hids : (q.queue.map RegModule.id).Nodup) (hlive : QueueLive q)
    (hbits : ∀ id, HasBit g'.bitmap id → (∃ m ∈ q.queue, m.id = id ∧ m.started = true) ∨
      ∃ p', p' ≠ p ∧ ∃ m ∈ (g.moduleQ p').queue, m.id = id ∧ m.started = true) : Good g' where
  wf p' := by
    rw [hq]
    by_cases hp : p' = p
    · rwa [hp, setQueue_self]
    · rw [setQueue_of_ne g hp]
      exact h.wf p'
  placed {p' m} hm := by
    rw [hq] at hm
    by_cases hp : p' = p
    · rw [hp, setQueue_self] at hm
      rw [hp]
      exact hplaced m hm
    · rw [setQueue_of_ne g hp] at hm
      exact h.placed hm
  ids p' := by
    rw [hq]
    by_cases hp : p' = p
    · rwa [hp, setQueue_self]
    · rw [setQueue_of_ne g hp]
      exact h.ids p'
  live p' := by
    rw [hq]
    by_cases hp : p' = p
    · rwa [hp, setQueue_self]
    · rw [setQueue_of_ne g hp]
      exact h.live p'
  bits {id} hid := by
    rw [hq]
    obtain hm | ⟨p', hp, hm⟩ := hbits id hid
    · exact ⟨p, by rwa [setQueue_self]⟩
    · exact ⟨p', by rwa [setQueue_of_ne g hp]⟩

/-- What the order depends on. -/
theorem Good.congr {g g' : Registry} (h : Good g) (hq : g'.moduleQ = g.moduleQ)
    (hb : g'.bitmap = g.bitmap) : Good g' where
  wf p := hq ▸ h.wf p
  placed hm := h.placed (hq ▸ hm)
  ids p := hq ▸ h.ids p
  live p := hq ▸ h.live p
  bits hid := by
    rw [hb] at hid
    rw [hq]
    exact h.bits hid

/-! ## Registration -/

/-- A registration gets past the checks, and there is memory for the module. -/
def Proceeds (g : Registry) (id : ℕ) (o : RegOutcome) : Prop :=
  getMdlPriority id ≠ none ∧ o.opsOk = true ∧ chkBitmapBit g.bitmap id ≠ 1 ∧ o.allocOk = true

instance (g : Registry) (id : ℕ) (o : RegOutcome) : Decidable (g.Proceeds id o) :=
  inferInstanceAs (Decidable (_ ∧ _ ∧ _ ∧ _))

/-- The callbacks of the new module that are called succeed. -/
def CallbacksOk (g : Registry) (o : RegOutcome) : Prop :=
  o.initOk = true ∧ (g.started = true → o.startOk = true)

instance (g : Registry) (o : RegOutcome) : Decidable (g.CallbacksOk o) :=
  inferInstanceAs (Decidable (_ ∧ _))

theorem registerModule_refused {g : Registry} {id : ℕ} {o : RegOutcome} (h : ¬ g.Proceeds id o) :
    g.disprRegisterModule id o = (.failure, g) := by
  unfold disprRegisterModule
  split
  · rfl
  next p hp =>
    split
    · rfl
    next hcond =>
      split
      · rfl
      next halloc =>
        simp only [Bool.or_eq_true, Bool.not_eq_true', beq_iff_eq, not_or,
          Bool.not_eq_false] at hcond halloc
        exact absurd ⟨by rw [hp]; exact Option.some_ne_none p, hcond.1, hcond.2, halloc⟩ h

/-- A registration that proceeds links the new module at the end of the queue of its priority. -/
theorem registerModule_proceeds {g : Registry} {id : ℕ} {o : RegOutcome} (h : g.Proceeds id o) :
    ∃ p, getMdlPriority id = some p ∧
      ((g.CallbacksOk o ∧ g.disprRegisterModule id o = (.success,
        (g.setQueue p (pqPush (g.moduleQ p)
          { id := id, init := true, started := g.started })).addBits id p)) ∨
      (¬ g.CallbacksOk o ∧ g.disprRegisterModule id o = (.failure,
        g.setQueue p (pqPush (g.moduleQ p) { id := id, freed := true })))) := by
  obtain ⟨hprio, hops, hbit, halloc⟩ := h
  obtain ⟨p, hp⟩ := Option.ne_none_iff_exists'.mp hprio
  have hbit' : (chkBitmapBit g.bitmap id == 1) = false := by simpa using hbit
  have hreg : g.disprRegisterModule id o = match startNew g id o with
      | (true, m) => (.success, (g.setQueue p (pqPush (g.moduleQ p) m)).addBits id p)
      | (false, m) => (.failure, g.setQueue p
          (pqPush (g.moduleQ p) { bkModuleDeinit m with freed := true })) := by
    simp [disprRegisterModule, hp, hops, hbit', halloc]
  refine ⟨p, hp, ?_⟩
  rw [hreg]
  unfold startNew CallbacksOk
  cases hinit : o.initOk with
  | false =>
    refine Or.inr ⟨fun h => absurd h.1 Bool.false_ne_true, ?_⟩
    simp [bkModuleInit, bkModuleDeinit]
  | true =>
    cases hstarted : g.started with
    | false =>
      refine Or.inl ⟨⟨rfl, fun h => absurd h Bool.false_ne_true⟩, ?_⟩
      simp [bkModuleInit]
    | true =>
      cases hstart : o.startOk with
      | true =>
        refine Or.inl ⟨⟨rfl, fun _ => rfl⟩, ?_⟩
        simp [bkModuleInit, bkModuleStart]
      | false =>
        refine Or.inr ⟨fun h => absurd (h.2 rfl) Bool.false_ne_true, ?_⟩
        simp [bkModuleInit, bkModuleStart, bkModuleDeinit]

/-- The condition on a registration: if it proceeds, no module with its id is in a queue, and the
callbacks succeed. -/
def RegisterOk (g : Registry) : Event → Prop
  | .register id o => g.Proceeds id o →
      (∀ p ∈ getMdlPriority id, ∀ m ∈ (g.moduleQ p).queue, m.id ≠ id) ∧ g.CallbacksOk o
  | _ => True

instance (g : Registry) (e : Event) : Decidable (g.RegisterOk e) :=
  match e with
  | .register id o => inferInstanceAs (Decidable (g.Proceeds id o → _))
  | .start _ => isTrue trivial
  | .stop => isTrue trivial
  | .deregister _ => isTrue trivial
  | .moduleStart _ => isTrue trivial
  | .moduleStop => isTrue trivial

theorem Good.register {g : Registry} {id : ℕ} {o : RegOutcome} (h : Good g)
    (hok : g.RegisterOk (.register id o)) : Good (g.disprRegisterModule id o).2 := by
  by_cases hproc : g.Proceeds id o
  · obtain ⟨hnew, hcallbacks⟩ := hok hproc
    obtain ⟨p, hp, ⟨-, hcase⟩ | ⟨hno, -⟩⟩ := registerModule_proceeds hproc
    · rw [hcase]
      set m : RegModule := { id := id, init := true, started := g.started } with hm
      have hq : ((g.setQueue p (pqPush (g.moduleQ p) m)).addBits id p).moduleQ =
          (g.setQueue p (pqPush (g.moduleQ p) m)).moduleQ := by
        unfold addBits
        split <;> rfl
      have hmem : m ∈ (pqPush (g.moduleQ p) m).queue :=
        List.mem_append_right _ (List.mem_singleton_self m)
      refine h.setQueue hq ((h.wf p).push m) ?_ ?_ ?_ ?_
      · intro m' hm'
        obtain hm' | hm' := List.mem_append.mp hm'
        · exact h.placed hm'
        · rw [List.mem_singleton.mp hm']
          exact hp
      · show ((g.moduleQ p).queue ++ [m]).map RegModule.id |>.Nodup
        rw [List.map_append, List.nodup_append]
        refine ⟨h.ids p, List.nodup_singleton _, ?_⟩
        intro i hi j hj
        obtain ⟨m', hm', rfl⟩ := List.mem_map.mp hi
        rw [List.mem_singleton.mp hj]
        exact hnew p hp m' hm'
      · intro m' hm'
        obtain hm' | hm' := List.mem_append.mp hm'
        · exact h.live p m' hm'
        · rw [List.mem_singleton.mp hm']
      · -- a bit is the one of the new module, which is started, or an old one
        intro id' hid'
        have hcases : (id' = id ∧ g.started = true) ∨ HasBit g.bitmap id' := by
          unfold addBits at hid'
          split at hid'
          next hstarted =>
            obtain heq | hold := (hasBit_add _ _ _).mp hid'
            · exact Or.inl ⟨heq, hstarted⟩
            · exact Or.inr hold
          next => exact Or.inr hid'
        obtain ⟨rfl, hstarted⟩ | hold := hcases
        · exact Or.inl ⟨m, hmem, rfl, hstarted⟩
        · obtain ⟨p', m', hm', hid, hst⟩ := h.bits hold
          by_cases hpp : p' = p
          · rw [hpp] at hm'
            exact Or.inl ⟨m', List.mem_append_left _ hm', hid, hst⟩
          · exact Or.inr ⟨p', hpp, m', hm', hid, hst⟩
    · exact absurd hcallbacks hno
  · rw [registerModule_refused hproc]
    exact h

/-! ## Deregistration -/

theorem searchMdl_some {q : PhlQueue RegModule} {id : ℕ} {m : RegModule}
    (h : searchMdl q id = some m) : m ∈ q.queue ∧ m.id = id := by
  unfold searchMdl at h
  split at h
  · exact ⟨List.mem_of_find?_eq_some h, by simpa using List.find?_some h⟩
  · cases h

theorem Good.deregister {g : Registry} (h : Good g) (id : ℕ) :
    Good (g.disprDeregisterModule id).2 := by
  unfold disprDeregisterModule
  split
  · exact h
  next p hp =>
    split
    · exact h
    next m hsearch =>
      obtain ⟨hm, rfl⟩ := searchMdl_some hsearch
      have hnodup : (g.moduleQ p).queue.Nodup := List.Nodup.of_map _ (h.ids p)
      have hmem (m' : RegModule) : m' ∈ (pqDelNode (g.moduleQ p) m).queue ↔
          m' ≠ m ∧ m' ∈ (g.moduleQ p).queue := hnodup.mem_erase_iff
      refine h.setQueue rfl ((h.wf p).delNode hm) ?_ ?_ ?_ ?_
      · intro m' hm'
        exact h.placed ((hmem m').mp hm').2
      · exact (h.ids p).sublist ((List.erase_sublist).map RegModule.id)
      · intro m' hm'
        exact h.live p m' ((hmem m').mp hm').2
      · intro id' hid'
        obtain ⟨hne, hold⟩ := (hasBit_clr _ _ _).mp hid'
        obtain ⟨p', m', hm', rfl, hst⟩ := h.bits hold
        by_cases hpp : p' = p
        · rw [hpp] at hm'
          refine Or.inl ⟨m', (hmem m').mpr ⟨?_, hm'⟩, rfl, hst⟩
          rintro rfl
          exact hne rfl
        · exact Or.inr ⟨p', hpp, m', hm', rfl, hst⟩

/-! ## Start and stop of the modules -/

/-- The callback decides whether a module is started by `bk_module_start`; a module that was started
stays so. -/
theorem bkModuleStart_spec (m : RegModule) (ok : Bool) :
    (bkModuleStart m ok).2.id = m.id ∧ (bkModuleStart m ok).2.freed = m.freed ∧
      ((bkModuleStart m ok).1 = true → (bkModuleStart m ok).2.started = true) ∧
      (m.started = true → (bkModuleStart m ok).2.started = true) := by
  unfold bkModuleStart
  split
  · exact ⟨rfl, rfl, fun h => absurd h Bool.false_ne_true, id⟩
  · split
    · exact ⟨rfl, rfl, fun _ => rfl, fun _ => rfl⟩
    · exact ⟨rfl, rfl, fun h => absurd h Bool.false_ne_true, id⟩

/-- The loop of `dispr_module_start` over one queue sets the bits of the modules it starts, and
leaves the queues alone. -/
theorem moduleStart_foldl (startOk : ℕ → Bool) (p : Priority) (l : List RegModule) (g : Registry) :
    (l.foldl (fun g m => (g.moduleStart startOk p m).1) g).moduleQ = g.moduleQ ∧
      ∀ id, HasBit (l.foldl (fun g m => (g.moduleStart startOk p m).1) g).bitmap id →
        HasBit g.bitmap id ∨ ∃ m ∈ l, m.id = id ∧ (bkModuleStart m (startOk m.id)).1 = true := by
  induction l generalizing g with
  | nil => exact ⟨rfl, fun id hid => Or.inl hid⟩
  | cons m l ih =>
    obtain ⟨hq, hbits⟩ := ih (g.moduleStart startOk p m).1
    have hone : (g.moduleStart startOk p m).1.moduleQ = g.moduleQ ∧
        ∀ id, HasBit (g.moduleStart startOk p m).1.bitmap id →
          HasBit g.bitmap id ∨ (m.id = id ∧ (bkModuleStart m (startOk m.id)).1 = true) := by
      unfold moduleStart
      split
      next m' hst =>
        refine ⟨rfl, fun id hid => ?_⟩
        obtain heq | hold := (hasBit_add _ _ _).mp hid
        · exact Or.inr ⟨heq.symm, by rw [hst]⟩
        · exact Or.inl hold
      next => exact ⟨rfl, fun id hid => Or.inl hid⟩
    rw [List.foldl_cons]
    refine ⟨hq.trans hone.1, fun id hid => ?_⟩
    obtain hold | ⟨m', hm', hid'⟩ := hbits id hid
    · obtain hold | hnew := hone.2 id hold
      · exact Or.inl hold
      · exact Or.inr ⟨m, List.mem_cons_self, hnew⟩
    · exact Or.inr ⟨m', List.mem_cons_of_mem m hm', hid'⟩

theorem Good.queueStart {g : Registry} (h : Good g) (startOk : ℕ → Bool) (p : Priority) :
    Good (g.queueStart startOk p) := by
  obtain ⟨hqueues, hbits⟩ := moduleStart_foldl startOk p (g.moduleQ p).queue g
  -- the modules of the queue are the old ones, with the same ids
  have hmem {m' : RegModule}
      (hm' : m' ∈ (g.moduleQ p).queue.map fun m => (bkModuleStart m (startOk m.id)).2) :
      ∃ m ∈ (g.moduleQ p).queue, (bkModuleStart m (startOk m.id)).2 = m' := List.mem_map.mp hm'
  refine h.setQueue (p := p) (q := { g.moduleQ p with
    queue := (g.moduleQ p).queue.map fun m =>
      (bkModuleStart m (startOk m.id)).2 }) ?_ ?_ ?_ ?_ ?_ ?_
  · show Function.update _ p _ = Function.update _ p _
    rw [hqueues]
  · have hwf := h.wf p
    simp only [PhlQueue.Wf, List.length_map] at hwf ⊢
    exact hwf
  · intro m' hm'
    obtain ⟨m, hm, rfl⟩ := hmem hm'
    rw [(bkModuleStart_spec m _).1]
    exact h.placed hm
  · rw [List.map_map]
    have hfun : (RegModule.id ∘ fun m => (bkModuleStart m (startOk m.id)).2) = RegModule.id :=
      funext fun m => (bkModuleStart_spec m _).1
    rw [hfun]
    exact h.ids p
  · intro m' hm'
    obtain ⟨m, hm, rfl⟩ := hmem hm'
    rw [(bkModuleStart_spec m _).2.1]
    exact h.live p m hm
  · intro id hid
    obtain hold | ⟨m, hm, hid', hst⟩ := hbits id hid
    · obtain ⟨p', m, hm, hid', hst⟩ := h.bits hold
      by_cases hpp : p' = p
      · rw [hpp] at hm
        refine Or.inl ⟨_, List.mem_map_of_mem hm, ?_, ?_⟩
        · rw [(bkModuleStart_spec m _).1, hid']
        · exact (bkModuleStart_spec m _).2.2.2 hst
      · exact Or.inr ⟨p', hpp, m, hm, hid', hst⟩
    · refine Or.inl ⟨_, List.mem_map_of_mem hm, ?_, ?_⟩
      · rw [(bkModuleStart_spec m _).1, hid']
      · exact (bkModuleStart_spec m _).2.2.1 hst

theorem Good.queueStop {g : Registry} (h : Good g) (p : Priority) : Good (g.queueStop p) := by
  refine h.setQueue (p := p) (q := { g.moduleQ p with
    queue := (g.moduleQ p).queue.map bkModuleStop }) rfl ?_ ?_ ?_ ?_ ?_
  · have hwf := h.wf p
    simp only [PhlQueue.Wf, List.length_map] at hwf ⊢
    exact hwf
  · intro m' hm'
    obtain ⟨m, hm, rfl⟩ := List.mem_map.mp hm'
    show getMdlPriority m.id = some p
    exact h.placed hm
  · rw [List.map_map]
    exact h.ids p
  · intro m' hm'
    obtain ⟨m, hm, rfl⟩ := List.mem_map.mp hm'
    exact h.live p m hm
  · -- the bits of the modules of the queue have been cleared
    intro id hid
    obtain ⟨hnot, hold⟩ := (hasBit_clr_foldl _ _ _).mp hid
    obtain ⟨p', m, hm, hid', hst⟩ := h.bits hold
    refine Or.inr ⟨p', ?_, m, hm, hid', hst⟩
    rintro rfl
    exact hnot m hm hid'

/-- A loop over the priorities keeps what each of its rounds keeps. -/
theorem Good.foldl {f : Registry → Priority → Registry} (hf : ∀ g p, Good g → Good (f g p))
    (l : List Priority) {g : Registry} (h : Good g) : Good (l.foldl f g) := by
  induction l generalizing g with
  | nil => exact h
  | cons p l ih => exact ih (hf g p h)

/-! ## Runs -/

/-- Every call that meets the condition keeps the modules in order. -/
theorem Good.step {g g' : Registry} {e : Event} (h : Good g) (hok : g.RegisterOk e)
    (hs : g.step e = some g') : Good g' := by
  cases e with
  | start ctrlOk =>
    obtain rfl := Option.some.inj hs
    unfold disprStart
    split
    · exact h
    · split
      · exact h.congr rfl rfl
      · exact h.congr rfl rfl
  | stop =>
    obtain rfl := Option.some.inj hs
    unfold disprStop
    split
    · exact h
    · exact h.congr rfl rfl
  | register id o =>
    obtain rfl := Option.some.inj (Option.ite_none_right_eq_some.mp hs).2
    exact h.register hok
  | deregister id =>
    obtain rfl := Option.some.inj (Option.ite_none_right_eq_some.mp hs).2
    exact h.deregister id
  | moduleStart startOk =>
    obtain rfl := Option.some.inj (Option.ite_none_right_eq_some.mp hs).2
    unfold disprModuleStart
    split
    · exact h
    · exact Good.foldl (fun g p hg => hg.queueStart startOk p) _ h
  | moduleStop =>
    obtain rfl := Option.some.inj (Option.ite_none_right_eq_some.mp hs).2
    unfold disprModuleStop
    split
    · exact h
    · exact Good.foldl (fun g p hg => hg.queueStop p) _ h

/-- In order, every call has an outcome. -/
theorem Good.step_isSome {g : Registry} (h : Good g) (e : Event) : (g.step e).isSome := by
  have hid (id : ℕ) : g.IdLive id := fun p _ => h.live p
  have hall : g.AllLive := ⟨h.live .role, h.live .optional, h.live .mandatory⟩
  cases e with
  | start ctrlOk => rfl
  | stop => rfl
  | register id o => simp [Registry.step, hid id]
  | deregister id => simp [Registry.step, hid id]
  | moduleStart startOk => simp [Registry.step, hall]
  | moduleStop => simp [Registry.step, hall]

/-- All registered modules. -/
def allModules (g : Registry) : List RegModule :=
  (g.moduleQ .role).queue ++ (g.moduleQ .optional).queue ++ (g.moduleQ .mandatory).queue

theorem mem_allModules {g : Registry} {m : RegModule} :
    m ∈ g.allModules ↔ ∃ p, m ∈ (g.moduleQ p).queue := by
  unfold allModules
  rw [List.mem_append, List.mem_append]
  constructor
  · rintro ((hm | hm) | hm)
    · exact ⟨_, hm⟩
    · exact ⟨_, hm⟩
    · exact ⟨_, hm⟩
  · rintro ⟨p, hm⟩
    cases p with
    | role => exact Or.inl (Or.inl hm)
    | optional => exact Or.inl (Or.inr hm)
    | mandatory => exact Or.inr hm

theorem queue_sublist_allModules (g : Registry) (p : Priority) :
    (g.moduleQ p).queue.Sublist g.allModules := by
  unfold allModules
  cases p with
  | role => exact (List.sublist_append_left _ _).trans (List.sublist_append_left _ _)
  | optional => exact (List.sublist_append_right _ _).trans (List.sublist_append_left _ _)
  | mandatory => exact List.sublist_append_right _ _

/-- No two registered modules have the same id. -/
theorem Good.allModules_ids {g : Registry} (h : Good g) :
    (g.allModules.map RegModule.id).Nodup := by
  -- modules of different queues have ids of different ranges
  have hdisj {p p' : Priority} (hp : p ≠ p') :
      ∀ i ∈ (g.moduleQ p).queue.map RegModule.id,
        ∀ j ∈ (g.moduleQ p').queue.map RegModule.id, i ≠ j := by
    intro i hi j hj heq
    obtain ⟨m, hm, rfl⟩ := List.mem_map.mp hi
    obtain ⟨m', hm', rfl⟩ := List.mem_map.mp hj
    have hpp := h.placed hm
    rw [heq, h.placed hm'] at hpp
    exact hp (Option.some.inj hpp).symm
  unfold allModules
  rw [List.map_append, List.map_append, List.nodup_append, List.nodup_append]
  refine ⟨⟨h.ids _, h.ids _, hdisj (by decide)⟩, h.ids _, ?_⟩
  intro i hi j hj
  obtain hi | hi := List.mem_append.mp hi
  · exact hdisj (p := .role) (by decide) i hi j hj
  · exact hdisj (p := .optional) (by decide) i hi j hj

/-- The condition on a registration is exact: a registration that does not meet it gives a second
module the same id, or fails and leaves its trace in a queue. -/
theorem registerOk_of {g : Registry} {id : ℕ} {o : RegOutcome}
    (hids : ((g.disprRegisterModule id o).2.allModules.map RegModule.id).Nodup)
    (hfail : (g.disprRegisterModule id o).1 = .failure → (g.disprRegisterModule id o).2 = g) :
    g.RegisterOk (.register id o) := by
  intro hproc
  obtain ⟨p, hp, ⟨hcallbacks, hcase⟩ | ⟨-, hcase⟩⟩ := registerModule_proceeds hproc
  · refine ⟨fun p' hp' m hm heq => ?_, hcallbacks⟩
    obtain rfl : p' = p := Option.some.inj (hp'.symm.trans hp)
    rw [hcase] at hids
    set m' : RegModule := { id := id, init := true, started := g.started }
    -- the queue of the priority now holds the old module and the new one
    have hq : ((g.setQueue p' (pqPush (g.moduleQ p') m')).addBits id p').moduleQ p' =
        pqPush (g.moduleQ p') m' := by
      unfold addBits
      split
      · exact setQueue_self ..
      · exact setQueue_self ..
    have hnodup := hids.sublist ((queue_sublist_allModules _ p').map RegModule.id)
    have hmap : (pqPush (g.moduleQ p') m').queue.map RegModule.id =
        (g.moduleQ p').queue.map RegModule.id ++ [id] := List.map_append
    rw [hq, hmap, List.nodup_append] at hnodup
    exact hnodup.2.2 m.id (List.mem_map_of_mem hm) id (List.mem_singleton_self id) heq
  · -- the failed registration has added a node
    rw [hcase] at hfail
    have hq := congrArg (fun g' : Registry => (g'.moduleQ p).queue.length) (hfail rfl)
    simp [pqPush] at hq

/-- `get_module_by_id` finds the started module behind a set bit. -/
theorem Good.getModuleById {g : Registry} (h : Good g) {id : ℕ} (hctrl : isDisprCtrl id = false)
    (hbit : HasBit g.bitmap id) :
    ∃ m ∈ g.allModules, g.getModuleById id = some m ∧ m.id = id ∧ m.started = true := by
  obtain ⟨p, m, hm, rfl, hst⟩ := h.bits hbit
  have hsome : (([Priority.role, .optional, .mandatory].findSome? fun p =>
      searchMdl (g.moduleQ p) m.id)).isSome := by
    rw [List.findSome?_isSome_iff]
    refine ⟨p, by cases p <;> decide, ?_⟩
    have hcnt : 0 < (g.moduleQ p).cnt := by
      have hlen := List.length_pos_of_mem hm
      rw [h.wf p]
      exact_mod_cast hlen
    unfold searchMdl
    rw [if_pos hcnt, List.find?_isSome]
    exact ⟨m, hm, beq_self_eq_true m.id⟩
  obtain ⟨m', hm'⟩ := Option.isSome_iff_exists.mp hsome
  obtain ⟨p', -, hsearch⟩ := List.exists_of_findSome?_eq_some hm'
  -- whichever module is found, it is the one with this id
  obtain ⟨hmem', hid'⟩ := searchMdl_some hsearch
  have hpp := h.placed hmem'
  rw [hid', h.placed hm] at hpp
  obtain rfl := Option.some.inj hpp
  obtain rfl := List.inj_on_of_nodup_map (h.ids p) hmem' hm hid'
  refine ⟨m', mem_allModules.mpr ⟨p, hm⟩, ?_, rfl, hst⟩
  unfold Registry.getModuleById
  rw [if_neg (by rw [hctrl]; exact Bool.false_ne_true), if_neg hbit]
  exact hm'

/-- What the dispatch of messages sees of the registered modules. -/
def toModules (g : Registry) : Modules where
  bitmap := {id ∈ Finset.range 128 | HasBit g.bitmap id}
  basemap := {id ∈ Finset.range 128 | HasBit g.basemap id}
  moduleQ p := (g.moduleQ p).queue.map fun m => ⟨m.id, m.started⟩

/-- Modules in order are what the dispatch of messages relies on. -/
theorem Good.toModules_wf {g : Registry} (h : Good g) : g.toModules.Wf where
  placed p mdl hmdl := by
    obtain ⟨m, hm, rfl⟩ := List.mem_map.mp hmdl
    exact h.placed hm
  nodup p := by
    show (((g.moduleQ p).queue.map fun m => (⟨m.id, m.started⟩ : BkModule)).map
      BkModule.id).Nodup
    rw [List.map_map]
    exact h.ids p
  present id hid := by
    obtain ⟨p, m, hm, hid', hst⟩ := h.bits (Finset.mem_filter.mp hid).2
    exact ⟨p, _, List.mem_map_of_mem hm, hid', hst⟩

/-- In every run whose registrations meet the condition, every call has an outcome; no two
registered modules have the same id, a bit of the bitmap is set only for a registered module that is
started, each module is in the queue of its id range, and the counters are right. The next
registration keeps the ids apart, and leaves everything as it was when it fails, iff it meets the
condition. -/
theorem registry_wf (ctrlOk : Bool) (es : List Event)
    (hok : Guarded step RegisterOk (disprInit ctrlOk) es) :
    ∃ g, run step (disprInit ctrlOk) es = some g ∧
      (g.allModules.map RegModule.id).Nodup ∧
      (∀ id, chkBitmapBit g.bitmap id ≠ 0 →
        ∃ m ∈ g.allModules, m.id = id ∧ m.started = true) ∧
      (∀ p, ∀ m ∈ (g.moduleQ p).queue, getMdlPriority m.id = some p) ∧
      (∀ p, (g.moduleQ p).cnt = (g.moduleQ p).queue.length) ∧
      ∀ id o, g.RegisterOk (.register id o) ↔
        ((g.disprRegisterModule id o).2.allModules.map RegModule.id).Nodup ∧
          ((g.disprRegisterModule id o).1 = .failure → (g.disprRegisterModule id o).2 = g) := by
  have hstep (g : Registry) (e : Event) (hg : Good g) (hoke : RegisterOk g e) :
      ∃ g', step g e = some g' ∧ Good g' := by
    obtain ⟨g', hg'⟩ := Option.isSome_iff_exists.mp (hg.step_isSome e)
    exact ⟨g', hg', hg.step hoke hg'⟩
  obtain ⟨g, hrun, h⟩ := run_invariant Good hstep es (disprInit ctrlOk) (good_init ctrlOk) hok
  refine ⟨g, hrun, h.allModules_ids, fun id hid => ?_, fun p m hm => h.placed hm, h.wf,
    fun id o => ⟨fun hreg => ⟨(h.register hreg).allModules_ids, fun hfail => ?_⟩,
      fun hgood => registerOk_of hgood.1 hgood.2⟩⟩
  · obtain ⟨p, m, hm, hid', hst⟩ := h.bits hid
    exact ⟨m, mem_allModules.mpr ⟨p, hm⟩, hid', hst⟩
  · by_cases hproc : g.Proceeds id o
    · obtain ⟨p, -, ⟨-, hcase⟩ | ⟨hno, -⟩⟩ := registerModule_proceeds hproc
      · rw [hcase] at hfail
        cases hfail
      · exact absurd (hreg hproc).2 hno
    · rw [registerModule_refused hproc]

/-- Modules of the three ranges, one of them registered again after it has been removed. -/
theorem registry_wf_three : ∃ g, run step (disprInit true)
    [.start true, .register 11 ⟨true, true, true, true⟩, .register 41 ⟨true, true, true, true⟩,
      .register 72 ⟨true, true, true, true⟩, .deregister 11,
      .register 11 ⟨true, true, true, true⟩, .register 72 ⟨true, true, true, true⟩] = some g ∧
    (g.allModules.map RegModule.id).Nodup := by
  obtain ⟨g, hrun, hids, -⟩ := registry_wf true
    [.start true, .register 11 ⟨true, true, true, true⟩, .register 41 ⟨true, true, true, true⟩,
      .register 72 ⟨true, true, true, true⟩, .deregister 11,
      .register 11 ⟨true, true, true, true⟩, .register 72 ⟨true, true, true, true⟩]
    (by decide +kernel)
  exact ⟨g, hrun, hids⟩

/-- Module 11 can be registered twice, because its bit is not the lowest of its byte. A registration
whose callback fails leaves a freed module in the queue. -/
theorem registration_goes_wrong :
    (∃ g, run step (disprInit true) [.start true, .register 11 ⟨true, true, true, true⟩,
      .register 11 ⟨true, true, true, true⟩] = some g ∧
      g.allModules.map RegModule.id = [11, 11]) ∧
    ∃ g, run step (disprInit true) [.start true] = some g ∧
      (g.moduleQ .role).queue = [] ∧
      (g.disprRegisterModule 11 ⟨true, true, false, true⟩).1 = .failure ∧
      ((g.disprRegisterModule 11 ⟨true, true, false, true⟩).2.moduleQ .role).queue =
        [{ id := 11, freed := true }] := by
  have htwice : (run step (disprInit true) [.start true, .register 11 ⟨true, true, true, true⟩,
      .register 11 ⟨true, true, true, true⟩]).map (fun g => g.allModules.map RegModule.id) =
      some [11, 11] := by decide +kernel
  obtain ⟨g, hrun, hids⟩ := Option.map_eq_some_iff.mp htwice
  refine ⟨⟨g, hrun, hids⟩, ⟨_, rfl, rfl, ?_, ?_⟩⟩
  · decide +kernel
  · decide +kernel

end Registry

end Rtl88x2cu.Dispatcher
