import Mathlib.Algebra.Order.Ring.Nat
import Mathlib.Data.Finset.Lattice.Lemmas
import Rtl88x2cu.Dispatcher.Msg
import Rtl88x2cu.Lib.Worklist

/-!
# Command dispatcher: the phases of a message

The life of one accepted message, from its first dispatch to its recycling, for arbitrary return
codes of the modules. A message that a module has pended comes back later and `msg_dispatch`
starts from the top.

The modules a message has to visit form a worklist: those of the pre-phase by descending
priority, then those of the post-phase by ascending priority. `life_handled` says that the visits
of the whole life are a record of work on this list, in the sense of `Follows`: every visit is
to the next module, a pended module is visited again in the same phase, and when no module fails
the message completes, not cancelled, with nothing left. This holds as long as no module pends
the message in the post-phase.

A message pended in the post-phase is lost: when it is dispatched again, `msg_dispatch` finds the
post-phase bitmap not empty where it expects the pre-phase to be done, and cancels it. This is
`post_phase_pending_cancelled`.
-/

namespace Rtl88x2cu.Dispatcher

/-- How the dispatch goes on after a module has answered. -/
def MdlRet.verdict : MdlRet → Verdict
  | .success => .advance
  | .ignore => .advance
  | .pending => .retry
  | .fail => .stop
  | .cannotIo => .stop

/-! ## Feeding a list of modules -/

section Feeding

variable (o : MsgCall → MdlRet) (pre : Bool)

/-- The visit of a module and its answer. -/
def visitOf (id : MsgId) (mdl : ℕ) : MsgCall × MdlRet := (.feed mdl id, o (.feed mdl id))

/-- Calls that are not visits of a module. -/
def MsgCall.IsFeed : MsgCall → Prop
  | .feed _ _ => True
  | _ => False

/-- Clear the bits of the modules `l` in the bitmap of a phase. -/
def MsgEx.clear (m : MsgEx) (l : List ℕ) : MsgEx :=
  if pre then { m with premap := m.premap \ l.toFinset }
  else { m with postmap := m.postmap \ l.toFinset }

/-- The same on the view. -/
def View.clear (v : View) (l : List ℕ) : View := { v with msg := v.msg.clear pre l }

/-- Mark the message as pending. -/
def View.pend (v : View) : View :=
  { v with msg := { v.msg with status := { v.msg.status with pending := true } } }

variable {pre}

@[simp]
theorem View.clear_nil (v : View) : v.clear pre [] = v := by
  cases pre <;> simp [View.clear, MsgEx.clear]

theorem View.clear_clear (v : View) (l l' : List ℕ) :
    (v.clear pre l).clear pre l' = v.clear pre (l ++ l') := by
  cases pre <;> simp [View.clear, MsgEx.clear, sdiff_sdiff, Finset.sup_eq_union,
    List.toFinset_append]

@[simp]
theorem View.clear_id (v : View) (l : List ℕ) : (v.clear pre l).msg.id = v.msg.id := by
  cases pre <;> rfl

@[simp]
theorem View.clear_status (v : View) (l : List ℕ) :
    (v.clear pre l).msg.status = v.msg.status := by
  cases pre <;> rfl

@[simp]
theorem View.clear_owner (v : View) (l : List ℕ) : (v.clear pre l).msg.owner = v.msg.owner := by
  cases pre <;> rfl

theorem View.clear_phaseMap (v : View) (l : List ℕ) :
    (v.clear pre l).msg.phaseMap pre = v.msg.phaseMap pre \ l.toFinset := by
  cases pre <;> rfl

variable (pre)

/-- What feeding the worklist `w` alone comes to: all modules have taken the message, one has
pended it, or one has failed it. -/
inductive Fed (v : View) (w : List ℕ) : View → Bool → List (MsgCall × MdlRet) → Prop where
  | all (hall : ∀ x ∈ w, (o (.feed x v.msg.id)).verdict = .advance) :
      Fed v w (v.clear pre w) false (w.map (visitOf o v.msg.id))
  | pended {l rest : List ℕ} {x : ℕ} (hw : w = l ++ x :: rest)
      (hl : ∀ y ∈ l, (o (.feed y v.msg.id)).verdict = .advance)
      (hx : o (.feed x v.msg.id) = .pending) :
      Fed v w (v.clear pre l).pend true ((l ++ [x]).map (visitOf o v.msg.id))
  | failed {l rest : List ℕ} {x : ℕ} {v' : View} {extra : List (MsgCall × MdlRet)}
      (hw : w = l ++ x :: rest) (hl : ∀ y ∈ l, (o (.feed y v.msg.id)).verdict = .advance)
      (hx : (o (.feed x v.msg.id)).verdict = .stop) (hv' : v'.msg.status.fail = true)
      (hextra : ∀ c ∈ extra, ¬ c.1.IsFeed) :
      Fed v w v' true ((l ++ [x]).map (visitOf o v.msg.id) ++ extra)

variable {o pre} {v v₁ v₂ : View} {w w₁ w₂ : List ℕ} {t₁ t₂ : List (MsgCall × MdlRet)} {b : Bool}

theorem Fed.nil (v : View) : Fed o pre v [] v false [] := by
  have hfed : Fed o pre v [] (v.clear pre []) false _ := .all (by simp)
  rwa [View.clear_nil] at hfed

/-- Feeding stops at the first module that does not take the message. -/
theorem Fed.stopped (h : Fed o pre v w₁ v₁ true t₁) (w₂ : List ℕ) :
    Fed o pre v (w₁ ++ w₂) v₁ true t₁ := by
  cases h with
  | pended hw hl hx => exact .pended (by rw [hw, List.append_assoc, List.cons_append]) hl hx
  | failed hw hl hx hv' hextra =>
    exact .failed (by rw [hw, List.append_assoc, List.cons_append]) hl hx hv' hextra

/-- Feeding one list after the other. -/
theorem Fed.append (h₁ : Fed o pre v w₁ v₁ false t₁) (h₂ : Fed o pre v₁ w₂ v₂ b t₂) :
    Fed o pre v (w₁ ++ w₂) v₂ b (t₁ ++ t₂) := by
  cases h₁ with
  | all hall =>
    have hmem : ∀ {l : List ℕ}, (∀ y ∈ l, (o (.feed y v.msg.id)).verdict = .advance) →
        ∀ y ∈ w₁ ++ l, (o (.feed y v.msg.id)).verdict = .advance := by
      intro l hl y hy
      rcases List.mem_append.mp hy with hy | hy
      · exact hall y hy
      · exact hl y hy
    cases h₂ with
    | all hall₂ =>
      rw [View.clear_id] at hall₂ ⊢
      rw [View.clear_clear, ← List.map_append]
      exact .all (hmem hall₂)
    | pended hw hl hx =>
      rw [View.clear_id] at hl hx ⊢
      rw [View.clear_clear, ← List.map_append, ← List.append_assoc]
      exact .pended (by rw [hw, List.append_assoc]) (hmem hl) hx
    | failed hw hl hx hv' hextra =>
      rw [View.clear_id] at hl hx ⊢
      rw [← List.append_assoc, ← List.map_append, ← List.append_assoc]
      exact .failed (by rw [hw, List.append_assoc]) (hmem hl) hx hv' hextra

/-- `cur_req_hdl` leaves the message alone and visits no module. -/
theorem curReqHdl_alone (v : View) :
    ∃ extra, curReqHdl.answerWith o v = (v, (), extra) ∧ ∀ c ∈ extra, ¬ c.1.IsFeed := by
  unfold curReqHdl
  rw [Prog.answerWith_get_bind]
  split
  · exact ⟨_, Prog.answerWith_bind (Prog.answerWith_call _ o v) (Prog.answerWith_pure o () v),
      by simp [MsgCall.IsFeed]⟩
  · exact ⟨[], rfl, by simp⟩

/-- Telling the source of the message visits no module. -/
theorem notifySource_alone (v : View) :
    ∃ extra, notifySource.answerWith o v = (v, (), extra) ∧ ∀ c ∈ extra, ¬ c.1.IsFeed := by
  unfold notifySource
  rw [Prog.answerWith_get_bind]
  split
  · split
    · exact ⟨_, Prog.answerWith_bind (Prog.answerWith_call _ o v) (Prog.answerWith_pure o () v),
        by simp [MsgCall.IsFeed]⟩
    · exact ⟨[], rfl, by simp⟩
  · exact ⟨[], rfl, by simp⟩

/-- A failed message is marked so, and no further module is visited. -/
theorem notifyMsgFail_alone (ret : MdlRet) (v : View) :
    ∃ v' extra, (notifyMsgFail ret).answerWith o v = (v', (), extra) ∧
      v'.msg.status.fail = true ∧ ∀ c ∈ extra, ¬ c.1.IsFeed := by
  set v₁ : View := { v with msg := v.msg.markFail ret } with hv₁
  obtain ⟨t₁, ht₁, hextra₁⟩ := notifySource_alone (o := o) v₁
  obtain ⟨t₂, ht₂, hextra₂⟩ := curReqHdl_alone (o := o) v₁
  unfold notifyMsgFail
  simp only [editMsg, Prog.answerWith_modify_bind]
  by_cases howner : v₁.msg.status.ownerReq = true
  · refine ⟨v₁, t₁ ++ t₂, Prog.answerWith_bind ht₁ ?_, rfl, fun c hc => ?_⟩
    · rw [Prog.answerWith_get_bind, if_pos howner]
      exact ht₂
    · rcases List.mem_append.mp hc with hc | hc
      · exact hextra₁ c hc
      · exact hextra₂ c hc
  · refine ⟨v₁, t₁ ++ [], Prog.answerWith_bind ht₁ ?_, rfl, by simpa using hextra₁⟩
    rw [Prog.answerWith_get_bind, if_neg howner]
    rfl

/-- Feeding one module. -/
theorem feedMdlMsg_fed (hpre : v.msg.id.indcPrePhase = pre) (x : ℕ) :
    ∃ v' t, (feedMdlMsg x).answerWith o v = (v', o (.feed x v.msg.id), t) ∧
      Fed o pre v [x] v' (o (.feed x v.msg.id)).stopDispatch t := by
  -- what is left to see is the handling of the answer
  have hrun : ∀ {v' : View} {t : List (MsgCall × MdlRet)},
      (handleRet x (o (.feed x v.msg.id))).answerWith o v = (v', (), t) →
      (feedMdlMsg x).answerWith o v =
        (v', o (.feed x v.msg.id), visitOf o v.msg.id x :: t) := by
    intro v' t h
    have hret := Prog.answerWith_bind (f := fun _ => pure (o (.feed x v.msg.id))) h
      (Prog.answerWith_pure o (o (.feed x v.msg.id)) v')
    rw [List.append_nil] at hret
    exact Prog.answerWith_bind (Prog.answerWith_call _ o v) hret
  have hclear : ({ v with msg := clrBitmapBit v.msg x } : View) = v.clear pre [x] := by
    rw [View.clear, clrBitmapBit, hpre, MsgEx.clear]
    cases pre <;> simp [Finset.sdiff_singleton_eq_erase]
  cases hret : o (.feed x v.msg.id) with
  | success =>
    refine ⟨v.clear pre [x], _, hret ▸ hrun (t := []) ?_, .all (by simp [hret, MdlRet.verdict])⟩
    rw [hret, ← hclear]
    rfl
  | ignore =>
    refine ⟨v.clear pre [x], _, hret ▸ hrun (t := []) ?_, .all (by simp [hret, MdlRet.verdict])⟩
    rw [hret, ← hclear]
    rfl
  | pending =>
    have hfed : Fed o pre v [x] (v.clear pre []).pend true _ :=
      .pended (List.nil_append [x]).symm (by simp) hret
    rw [View.clear_nil] at hfed
    refine ⟨v.pend, _, hret ▸ hrun (t := []) ?_, hfed⟩
    rw [hret]
    rfl
  | fail =>
    obtain ⟨v', extra, hv', hfail, hextra⟩ := notifyMsgFail_alone (o := o) .fail v
    refine ⟨v', _, hret ▸ hrun (t := extra) ?_, .failed (List.nil_append [x]).symm (by simp)
      (by simp [hret, MdlRet.verdict]) hfail hextra⟩
    rw [hret]
    exact hv'
  | cannotIo =>
    obtain ⟨v', extra, hv', hfail, hextra⟩ := notifyMsgFail_alone (o := o) .cannotIo v
    refine ⟨v', _, hret ▸ hrun (t := extra) ?_, .failed (List.nil_append [x]).symm (by simp)
      (by simp [hret, MdlRet.verdict]) hfail hextra⟩
    rw [hret]
    exact hv'

end Feeding

/-! ## The order of the visits -/

/-- The modules are registered in the queues of their priorities, each once, and every bit of
`bitmap` stands for a started module. -/
structure Modules.Wf (modules : Modules) : Prop where
  placed : ∀ p, ∀ mdl ∈ modules.moduleQ p, getMdlPriority mdl.id = some p
  nodup : ∀ p, ((modules.moduleQ p).map BkModule.id).Nodup
  present : ∀ id ∈ modules.bitmap, ∃ p, ∃ mdl ∈ modules.moduleQ p, mdl.id = id ∧ mdl.started

/-- The started modules of a queue. -/
def startedIds (l : List BkModule) : List ℕ := (l.filter BkModule.started).map BkModule.id

/-- The source of the message, if it has the priority `p`. -/
def ownerIds (owner : Option (ℕ × Priority)) (p : Priority) : List ℕ :=
  match owner with
  | some (x, q) => if q = p then [x] else []
  | none => []

/-- The modules of one priority in the order of their visits: the source of the message first. -/
def priorityOrder (modules : Modules) (pre : Bool) (owner : Option (ℕ × Priority))
    (p : Priority) : List ℕ :=
  ownerIds owner p ++
    (startedIds (phaseQueue modules pre p)).filter fun x => decide (x ∉ ownerIds owner p)

/-- All modules in the order of their visits in a phase. -/
def visitOrder (modules : Modules) (pre : Bool) (owner : Option (ℕ × Priority)) : List ℕ :=
  (phaseOrder pre).flatMap (priorityOrder modules pre owner)

/-- The modules to visit in a phase when `sel` is its bitmap. -/
def phaseWork (modules : Modules) (pre : Bool) (owner : Option (ℕ × Priority))
    (sel : Finset ℕ) : List ℕ :=
  (visitOrder modules pre owner).filter fun x => decide (x ∈ sel)

section Order

variable {modules : Modules} {pre : Bool} {owner : Option (ℕ × Priority)} {p : Priority}

/-- The module that sent the message is filed under its own priority. -/
def OwnerOk (owner : Option (ℕ × Priority)) : Prop :=
  ∀ x p, owner = some (x, p) → getMdlPriority x = some p

theorem MsgEx.ownerOk (m : MsgEx) : OwnerOk m.owner := by
  intro x p h
  obtain ⟨id, -, h⟩ := Option.bind_eq_some_iff.mp h
  obtain ⟨q, hq, h⟩ := Option.map_eq_some_iff.mp h
  obtain ⟨rfl, rfl⟩ := Prod.mk.inj h
  exact hq

theorem mem_ownerIds {x : ℕ} (h : x ∈ ownerIds owner p) : owner = some (x, p) := by
  unfold ownerIds at h
  split at h
  next y q =>
    split at h
    next hq =>
      obtain rfl : x = y := by simpa using h
      rw [hq]
    next => simp at h
  next => simp at h

theorem phaseQueue_mem (modules : Modules) (pre : Bool) (p : Priority) (mdl : BkModule) :
    mdl ∈ phaseQueue modules pre p ↔ mdl ∈ modules.moduleQ p := by
  unfold phaseQueue
  split <;> simp

theorem phaseQueue_nodup (h : modules.Wf) (pre : Bool) (p : Priority) :
    ((phaseQueue modules pre p).map BkModule.id).Nodup := by
  unfold phaseQueue
  split
  · exact h.nodup p
  · rw [List.map_reverse, List.nodup_reverse]
    exact h.nodup p

theorem mem_startedIds {l : List BkModule} {x : ℕ} :
    x ∈ startedIds l ↔ ∃ mdl ∈ l, mdl.started ∧ mdl.id = x := by
  simp [startedIds, and_assoc]

/-- Modules visited with a priority have that priority. -/
theorem getMdlPriority_of_mem (h : modules.Wf) (ho : OwnerOk owner) {x : ℕ}
    (hx : x ∈ priorityOrder modules pre owner p) : getMdlPriority x = some p := by
  rcases List.mem_append.mp hx with hx | hx
  · exact ho x p (mem_ownerIds hx)
  · obtain ⟨mdl, hmdl, -, rfl⟩ := mem_startedIds.mp (List.mem_filter.mp hx).1
    exact h.placed p mdl ((phaseQueue_mem modules pre p mdl).mp hmdl)

theorem priorityOrder_nodup (h : modules.Wf) : (priorityOrder modules pre owner p).Nodup := by
  refine List.nodup_append.mpr ⟨?_, ?_, fun x hx y hy hxy => ?_⟩
  · unfold ownerIds
    split
    · split <;> simp
    · simp
  · have hsub : (startedIds (phaseQueue modules pre p)).Sublist
        ((phaseQueue modules pre p).map BkModule.id) := List.filter_sublist.map _
    exact ((phaseQueue_nodup h pre p).sublist hsub).filter _
  · have hn := (List.mem_filter.mp hy).2
    rw [← hxy] at hn
    exact absurd hx (by simpa using hn)

theorem phaseOrder_nodup (pre : Bool) : (phaseOrder pre).Nodup := by
  cases pre <;> decide

/-- No module is visited twice in a phase. -/
theorem visitOrder_nodup (h : modules.Wf) (ho : OwnerOk owner) :
    (visitOrder modules pre owner).Nodup := by
  refine List.nodup_flatMap.mpr ⟨fun p _ => priorityOrder_nodup h, ?_⟩
  refine (phaseOrder_nodup pre).imp fun {p q} hpq x hx hx' => hpq ?_
  have hp := getMdlPriority_of_mem h ho hx
  rw [getMdlPriority_of_mem h ho hx'] at hp
  exact (Option.some.inj hp).symm

/-- Every module of the bitmap is visited. -/
theorem mem_visitOrder (h : modules.Wf) {x : ℕ} (hx : x ∈ modules.bitmap) :
    x ∈ visitOrder modules pre owner := by
  obtain ⟨p, mdl, hmdl, rfl, hstarted⟩ := h.present x hx
  refine List.mem_flatMap.mpr ⟨p, by cases pre <;> cases p <;> decide, ?_⟩
  by_cases ho : mdl.id ∈ ownerIds owner p
  · exact List.mem_append_left _ ho
  · refine List.mem_append_right _ (List.mem_filter.mpr ⟨?_, by simpa using ho⟩)
    exact mem_startedIds.mpr ⟨mdl, (phaseQueue_mem modules pre p mdl).mpr hmdl, hstarted, rfl⟩

/-- The work of a phase is exactly its bitmap. -/
theorem phaseWork_toFinset (h : modules.Wf) {sel : Finset ℕ} (hsel : sel ⊆ modules.bitmap) :
    (phaseWork modules pre owner sel).toFinset = sel := by
  ext x
  rw [List.mem_toFinset, phaseWork, List.mem_filter, decide_eq_true_iff]
  exact ⟨fun hx => hx.2, fun hx => ⟨mem_visitOrder h (hsel hx), hx⟩⟩

/-- `enum phl_bk_module_priority` as a number. -/
def Priority.rank : Priority → ℕ
  | .role => 0
  | .optional => 1
  | .mandatory => 2

/-- The modules `x` and `y` are in the order of their priorities in a phase: mandatory, optional,
role in the pre-phase, and the reverse in the post-phase. -/
def PhaseSorted (pre : Bool) (x y : ℕ) : Prop :=
  ∀ p q, getMdlPriority x = some p → getMdlPriority y = some q →
    if pre then q.rank ≤ p.rank else p.rank ≤ q.rank

/-- The visits of a phase go through the priorities in order. -/
theorem visitOrder_sorted (h : modules.Wf) (ho : OwnerOk owner) :
    (visitOrder modules pre owner).Pairwise (PhaseSorted pre) := by
  refine List.pairwise_flatMap.mpr ⟨fun p _ => ?_, ?_⟩
  · refine List.pairwise_of_forall_mem_list fun x hx y hy a b ha hb => ?_
    rw [getMdlPriority_of_mem h ho hx, Option.some.injEq] at ha
    rw [getMdlPriority_of_mem h ho hy, Option.some.injEq] at hb
    simp [← ha, ← hb]
  · have hsorted : (phaseOrder pre).Pairwise
        (fun p q => if pre then q.rank ≤ p.rank else p.rank ≤ q.rank) := by
      cases pre <;> decide
    refine hsorted.imp fun {p q} hpq x hx y hy a b ha hb => ?_
    rw [getMdlPriority_of_mem h ho hx, Option.some.injEq] at ha
    rw [getMdlPriority_of_mem h ho hy, Option.some.injEq] at hb
    rwa [← ha, ← hb]

end Order

/-! ## The phases, run alone -/

section Alone

variable {o : MsgCall → MdlRet} {pre : Bool} {v v' : View} {w : List ℕ}
  {t : List (MsgCall × MdlRet)}

theorem Fed.eq_clear (h : Fed o pre v w v' false t) : v' = v.clear pre w := by
  cases h
  rfl

/-- Clearing bits does not touch modules that are not among them. -/
theorem filter_clear (v : View) {l order : List ℕ} (h : ∀ x ∈ order, x ∉ l) :
    order.filter (fun x => decide (x ∈ (v.clear pre l).msg.phaseMap pre)) =
      order.filter (fun x => decide (x ∈ v.msg.phaseMap pre)) := by
  refine List.filter_congr fun x hx => ?_
  rw [View.clear_phaseMap]
  simp [h x hx]

/-- A queue of modules is fed in order. -/
theorem feedQueue_fed (l : List BkModule) (hn : (l.map BkModule.id).Nodup) (v : View)
    (hpre : v.msg.id.indcPrePhase = pre) :
    ∃ v' b t, (feedQueue pre l).answerWith o v = (v', b, t) ∧
      Fed o pre v ((startedIds l).filter fun x => decide (x ∈ v.msg.phaseMap pre)) v' b t := by
  induction l generalizing v with
  | nil => exact ⟨v, false, [], rfl, Fed.nil v⟩
  | cons mdl l ih =>
    rw [List.map_cons, List.nodup_cons] at hn
    have hnot : ∀ x ∈ startedIds l, x ∉ [mdl.id] := by
      intro x hx hx'
      obtain ⟨mdl', hmdl', -, rfl⟩ := mem_startedIds.mp hx
      rw [List.mem_singleton] at hx'
      exact hn.1 (hx' ▸ List.mem_map_of_mem hmdl')
    unfold feedQueue
    simp only [Prog.answerWith_get_bind]
    by_cases hfeed : (decide (mdl.id ∈ v.msg.phaseMap pre) && mdl.started) = true
    · rw [if_pos hfeed]
      obtain ⟨hmem, hstarted⟩ : mdl.id ∈ v.msg.phaseMap pre ∧ mdl.started = true := by
        simpa using hfeed
      have hwork : (startedIds (mdl :: l)).filter (fun x => decide (x ∈ v.msg.phaseMap pre)) =
          [mdl.id] ++ (startedIds l).filter (fun x => decide (x ∈ v.msg.phaseMap pre)) := by
        simp [startedIds, hstarted, hmem]
      rw [hwork]
      obtain ⟨v₁, t₁, hrun₁, hfed₁⟩ := feedMdlMsg_fed (o := o) hpre mdl.id
      cases hstop : (o (.feed mdl.id v.msg.id)).stopDispatch with
      | true =>
        rw [hstop] at hfed₁
        refine ⟨v₁, true, t₁ ++ [], Prog.answerWith_bind hrun₁ ?_, ?_⟩
        · rw [hstop]
          rfl
        · rw [List.append_nil]
          exact hfed₁.stopped _
      | false =>
        rw [hstop] at hfed₁
        obtain rfl := hfed₁.eq_clear
        obtain ⟨v₂, b, t₂, hrun₂, hfed₂⟩ := ih hn.2 (v.clear pre [mdl.id]) (by simpa using hpre)
        rw [filter_clear v hnot] at hfed₂
        refine ⟨v₂, b, t₁ ++ t₂, Prog.answerWith_bind hrun₁ ?_, hfed₁.append hfed₂⟩
        rw [hstop]
        exact hrun₂
    · rw [if_neg hfeed]
      have hwork : (startedIds (mdl :: l)).filter (fun x => decide (x ∈ v.msg.phaseMap pre)) =
          (startedIds l).filter (fun x => decide (x ∈ v.msg.phaseMap pre)) := by
        by_cases hstarted : mdl.started = true
        · have hmem : mdl.id ∉ v.msg.phaseMap pre := by simpa [hstarted] using hfeed
          simp [startedIds, hstarted, hmem]
        · simp [startedIds, hstarted]
      rw [hwork]
      exact ih hn.2 v hpre

/-- The source of the message is fed if its bit is set. -/
theorem feedOwner_fed (p : Priority) (v : View) (hpre : v.msg.id.indcPrePhase = pre) :
    ∃ v' b t, (feedOwner pre p).answerWith o v = (v', b, t) ∧
      Fed o pre v ((ownerIds v.msg.owner p).filter fun x => decide (x ∈ v.msg.phaseMap pre))
        v' b t := by
  unfold feedOwner ownerIds
  simp only [Prog.answerWith_get_bind]
  cases v.msg.owner with
  | none => exact ⟨v, false, [], rfl, Fed.nil v⟩
  | some owner =>
    obtain ⟨x, q⟩ := owner
    simp only
    by_cases hx : q = p ∧ x ∈ v.msg.phaseMap pre
    · obtain ⟨v₁, t₁, hrun₁, hfed₁⟩ := feedMdlMsg_fed (o := o) hpre x
      rw [if_pos hx, if_pos hx.1]
      refine ⟨v₁, _, t₁ ++ [], Prog.answerWith_bind hrun₁ rfl, ?_⟩
      simpa [hx.2] using hfed₁
    · rw [if_neg hx]
      refine ⟨v, false, [], rfl, ?_⟩
      split
      next hq =>
        have hmem : x ∉ v.msg.phaseMap pre := fun hm => hx ⟨hq, hm⟩
        simpa [hmem] using Fed.nil v
      next => exact Fed.nil v

/-- The modules of one priority are fed in order. -/
theorem feedPriority_fed (p : Priority) (v : View) (hwf : v.modules.Wf)
    (hpre : v.msg.id.indcPrePhase = pre) :
    ∃ v' b t, (feedPriority pre p).answerWith o v = (v', b, t) ∧
      Fed o pre v ((priorityOrder v.modules pre v.msg.owner p).filter
        fun x => decide (x ∈ v.msg.phaseMap pre)) v' b t := by
  obtain ⟨v₁, b₁, t₁, hrun₁, hfed₁⟩ := feedOwner_fed (o := o) p v hpre
  rw [priorityOrder, List.filter_append]
  unfold feedPriority
  cases b₁ with
  | true =>
    refine ⟨v₁, true, t₁ ++ [], Prog.answerWith_bind hrun₁ rfl, ?_⟩
    rw [List.append_nil]
    exact hfed₁.stopped _
  | false =>
    set l₁ := (ownerIds v.msg.owner p).filter fun x => decide (x ∈ v.msg.phaseMap pre) with hl₁
    obtain rfl := hfed₁.eq_clear
    obtain ⟨v₂, b₂, t₂, hrun₂, hfed₂⟩ := feedQueue_fed (o := o) (phaseQueue v.modules pre p)
      (phaseQueue_nodup hwf pre p) (v.clear pre l₁) (by simpa using hpre)
    refine ⟨v₂, b₂, t₁ ++ t₂, Prog.answerWith_bind hrun₁ hrun₂, hfed₁.append ?_⟩
    -- the source of the message has been fed, or is not in the bitmap
    have hsame : ((startedIds (phaseQueue v.modules pre p)).filter
          fun x => decide (x ∉ ownerIds v.msg.owner p)).filter
          (fun x => decide (x ∈ v.msg.phaseMap pre)) =
        (startedIds (phaseQueue v.modules pre p)).filter
          (fun x => decide (x ∈ (v.clear pre l₁).msg.phaseMap pre)) := by
      rw [List.filter_filter]
      refine List.filter_congr fun x _ => ?_
      rw [View.clear_phaseMap]
      by_cases hx : x ∈ v.msg.phaseMap pre <;> simp [hx, hl₁]
    rw [hsame]
    exact hfed₂

/-- The priorities are gone through in order. -/
theorem feedPriorities_fed (ps : List Priority) (hps : ps.Nodup) (v : View) (hwf : v.modules.Wf)
    (hpre : v.msg.id.indcPrePhase = pre) :
    ∃ v' b t, (feedPriorities pre ps).answerWith o v = (v', (), t) ∧
      Fed o pre v ((ps.flatMap (priorityOrder v.modules pre v.msg.owner)).filter
        fun x => decide (x ∈ v.msg.phaseMap pre)) v' b t := by
  induction ps generalizing v with
  | nil => exact ⟨v, false, [], rfl, Fed.nil v⟩
  | cons p ps ih =>
    rw [List.nodup_cons] at hps
    obtain ⟨v₁, b₁, t₁, hrun₁, hfed₁⟩ := feedPriority_fed (o := o) p v hwf hpre
    rw [List.flatMap_cons, List.filter_append]
    unfold feedPriorities
    cases b₁ with
    | true =>
      refine ⟨v₁, true, t₁ ++ [], Prog.answerWith_bind hrun₁ rfl, ?_⟩
      rw [List.append_nil]
      exact hfed₁.stopped _
    | false =>
      set l₁ := (priorityOrder v.modules pre v.msg.owner p).filter
        fun x => decide (x ∈ v.msg.phaseMap pre) with hl₁
      obtain rfl := hfed₁.eq_clear
      obtain ⟨v₂, b₂, t₂, hrun₂, hfed₂⟩ := ih hps.2 (v.clear pre l₁) hwf (by simpa using hpre)
      refine ⟨v₂, b₂, t₁ ++ t₂, Prog.answerWith_bind hrun₁ hrun₂, hfed₁.append ?_⟩
      rw [View.clear_owner, filter_clear v] at hfed₂
      · exact hfed₂
      · -- modules of different priorities are different
        intro x hx hx₁
        obtain ⟨q, hq, hxq⟩ := List.mem_flatMap.mp hx
        have hp := getMdlPriority_of_mem hwf v.msg.ownerOk (List.mem_filter.mp hx₁).1
        rw [getMdlPriority_of_mem hwf v.msg.ownerOk hxq, Option.some.injEq] at hp
        exact hps.1 (hp ▸ hq)

/-- A phase feeds its work. -/
theorem phase_fed (v : View) (hwf : v.modules.Wf) (hpre : v.msg.id.indcPrePhase = pre) :
    ∃ v' b t, (feedPriorities pre (phaseOrder pre)).answerWith o v = (v', (), t) ∧
      Fed o pre v (phaseWork v.modules pre v.msg.owner (v.msg.phaseMap pre)) v' b t :=
  feedPriorities_fed (phaseOrder pre) (phaseOrder_nodup pre) v hwf hpre

end Alone

/-! ## One dispatch -/

/-- The visits of background modules among the calls of a dispatch, with their phase. The
controller is not among them. -/
def moduleVisits (calls : List (MsgCall × MdlRet)) : List ((Bool × ℕ) × MdlRet) :=
  calls.filterMap fun c =>
    match c.1 with
    | .feed x id => if isDisprCtrl x then none else some ((id.indcPrePhase, x), c.2)
    | _ => none

@[simp]
theorem moduleVisits_append (t u : List (MsgCall × MdlRet)) :
    moduleVisits (t ++ u) = moduleVisits t ++ moduleVisits u :=
  List.filterMap_append

/-- Calls that are not visits do not count. -/
theorem moduleVisits_eq_nil {t : List (MsgCall × MdlRet)} (h : ∀ c ∈ t, ¬ c.1.IsFeed) :
    moduleVisits t = [] := by
  refine List.filterMap_eq_nil_iff.mpr fun c hc => ?_
  have hfeed := h c hc
  split
  next x id heq =>
    rw [heq] at hfeed
    exact absurd trivial hfeed
  next => rfl

/-- The visits of the modules of a worklist. -/
theorem moduleVisits_map {o : MsgCall → MdlRet} {id : MsgId} {l : List ℕ}
    (h : ∀ x ∈ l, isDisprCtrl x = false) :
    moduleVisits (l.map (visitOf o id)) =
      (l.map fun x => (id.indcPrePhase, x)).map fun i => (i, o (.feed i.2 id)) := by
  induction l with
  | nil => rfl
  | cons x l ih =>
    rw [List.forall_mem_cons] at h
    simp only [List.map_cons, moduleVisits, visitOf, List.filterMap_cons, h.1]
    rw [← ih h.2]
    rfl

/-- A message that is about to be dispatched: not failed, cancelled or pending, with modules that
exist. -/
structure View.Runnable (v : View) : Prop where
  wf : v.modules.Wf
  prePhase : v.msg.status.prePhase = true
  fail : v.msg.status.fail = false
  cancel : v.msg.status.cancel = false
  pending : v.msg.status.pending = false
  premap : v.msg.premap ⊆ v.modules.bitmap
  postmap : v.msg.postmap ⊆ v.modules.bitmap

/-- The items of a worklist for the visits of modules in a phase. -/
def items (pre : Bool) (l : List ℕ) : List (Bool × ℕ) := l.map fun x => (pre, x)

/-- The modules to visit, each with its phase. -/
def View.work (v : View) : List (Bool × ℕ) :=
  items true (phaseWork v.modules true v.msg.owner v.msg.premap) ++
    items false (phaseWork v.modules false v.msg.owner v.msg.postmap)

/-- The message with the indicator of the pre-phase set. -/
def View.inPre (v : View) : View :=
  { v with msg := { v.msg with id := { v.msg.id with indcPrePhase := true } } }

/-- How one dispatch of a runnable message ends, if no module pends it in the post-phase: it is
pended with part of the pre-phase done, it is completed, or it has failed. -/
inductive Dispatched (v : View) : View → Outcome → List (MsgCall × MdlRet) → Prop where
  | pended {l rest : List ℕ} {t : List (MsgCall × MdlRet)}
      (hwork : phaseWork v.modules true v.msg.owner v.msg.premap = l ++ rest)
      (hvisits : Follows MdlRet.verdict v.work (moduleVisits t))
      (hstop : ∀ c ∈ t, c.2.verdict ≠ .stop) (hpend : ∃ c ∈ t, c.1.IsFeed ∧ c.2 = .pending)
      (hrest : remaining MdlRet.verdict v.work (moduleVisits t) =
        items true rest ++ items false (phaseWork v.modules false v.msg.owner v.msg.postmap)) :
      Dispatched v (v.inPre.clear true l).pend .reschedule t
  | completed {v' : View} {t : List (MsgCall × MdlRet)}
      (hvisits : Follows MdlRet.verdict v.work (moduleVisits t))
      (hrest : remaining MdlRet.verdict v.work (moduleVisits t) = [])
      (hcancel : v'.msg.status.cancel = false) : Dispatched v v' .recycle t
  | failed {v' : View} {t : List (MsgCall × MdlRet)}
      (hvisits : Follows MdlRet.verdict v.work (moduleVisits t))
      (hfail : ∃ c ∈ t, c.1.IsFeed ∧ c.2.verdict = .stop) : Dispatched v v' .recycle t

section Dispatch

variable {o : MsgCall → MdlRet} {v : View}

theorem redirectChk_none {next : MsgProg Outcome} (h : v.msg.status.redirect = none) :
    (redirectChk next).answerWith o v = next.answerWith o v := by
  simp only [redirectChk, Prog.answerWith_get_bind, h]

theorem redirectChk_some {next : MsgProg Outcome} {out : Outcome}
    (h : v.msg.status.redirect = some out) :
    (redirectChk next).answerWith o v = (v, out, []) := by
  simp only [redirectChk, Prog.answerWith_get_bind, h, Prog.answerWith_pure]

theorem redirect_fail {st : MsgStatus} (h : st.fail = true) : st.redirect = some .recycle := by
  simp [MsgStatus.redirect, h]

/-- The work of a module does not include the controller. -/
theorem not_isDisprCtrl_of_mem (hwf : v.modules.Wf) {pre : Bool} {sel : Finset ℕ} {x : ℕ}
    (hx : x ∈ phaseWork v.modules pre v.msg.owner sel) : isDisprCtrl x = false := by
  obtain ⟨p, -, hp⟩ := List.mem_flatMap.mp (List.mem_filter.mp hx).1
  have hpri := getMdlPriority_of_mem hwf v.msg.ownerOk hp
  unfold getMdlPriority at hpri
  split at hpri
  next => cases hpri
  next hlt => simpa [isDisprCtrl] using hlt

theorem singleton_eq_append_cons {a x : ℕ} {l rest : List ℕ} (h : [a] = l ++ x :: rest) :
    l = [] ∧ x = a ∧ rest = [] := by
  cases l with
  | nil => simpa [eq_comm] using h
  | cons y l => simp at h

/-- The controller is fed first. It is not in the bitmaps, so they stay. -/
theorem notifyDisprController_alone (hpre : v.msg.id.indcPrePhase = true)
    (hctrl : phlMdlPhyMgnt ∉ v.msg.premap) :
    ∃ v₁ t₁, notifyDisprController.answerWith o v = (v₁, (), t₁) ∧ moduleVisits t₁ = [] ∧
      ((v₁ = v ∧ ∀ c ∈ t₁, c.2.verdict = .advance) ∨
        (v₁ = v.pend ∧ (∀ c ∈ t₁, c.2.verdict ≠ .stop) ∧
          ∃ c ∈ t₁, c.1.IsFeed ∧ c.2 = .pending) ∨
        (v₁.msg.status.fail = true ∧ ∃ c ∈ t₁, c.1.IsFeed ∧ c.2.verdict = .stop)) := by
  unfold notifyDisprController
  simp only [Prog.answerWith_get_bind]
  split
  next =>
    obtain ⟨v₁, t₁, hrun, hfed⟩ := feedMdlMsg_fed (o := o) hpre phlMdlPhyMgnt
    have hbind := Prog.answerWith_bind (f := fun _ => pure ()) hrun (Prog.answerWith_pure o () v₁)
    rw [List.append_nil] at hbind
    refine ⟨v₁, t₁, hbind, ?_⟩
    generalize (o (.feed phlMdlPhyMgnt v.msg.id)).stopDispatch = b at hfed
    cases hfed with
    | all hall =>
      refine ⟨rfl, Or.inl ⟨?_, ?_⟩⟩
      · simp [View.clear, MsgEx.clear, Finset.sdiff_singleton_eq_erase,
          Finset.erase_eq_of_notMem hctrl]
      · simpa [visitOf] using hall
    | pended hw hl hx =>
      obtain ⟨rfl, rfl, rfl⟩ := singleton_eq_append_cons hw
      refine ⟨rfl, Or.inr (Or.inl ⟨by rw [View.clear_nil], ?_, ?_⟩)⟩
      · simp [visitOf, hx, MdlRet.verdict]
      · exact ⟨_, List.mem_cons_self, trivial, hx⟩
    | failed hw hl hx hv' hextra =>
      obtain ⟨rfl, rfl, rfl⟩ := singleton_eq_append_cons hw
      refine ⟨?_, Or.inr (Or.inr ⟨hv', _, List.mem_cons_self, trivial, hx⟩)⟩
      rw [moduleVisits_append, moduleVisits_eq_nil hextra]
      rfl
  next => exact ⟨v, [], rfl, rfl, Or.inl ⟨rfl, by simp⟩⟩

/-- The message in the post-phase. -/
def View.inPost (v : View) : View :=
  { v with msg := { v.msg with
      status := { v.msg.status with prePhase := false }
      id := { v.msg.id with indcPrePhase := false } } }

/-- A phase with an empty bitmap is skipped; then there is no work either. -/
theorem Fed.skip {pre : Bool} (hmap : v.msg.phaseMap pre = ∅) :
    Fed o pre v (phaseWork v.modules pre v.msg.owner (v.msg.phaseMap pre)) v false [] := by
  have hwork : phaseWork v.modules pre v.msg.owner (v.msg.phaseMap pre) = [] := by
    simp [phaseWork, hmap]
  rw [hwork]
  exact Fed.nil v

theorem runPrePhase_fed (hwf : v.modules.Wf) (hpre : v.msg.id.indcPrePhase = true) :
    ∃ v' b t, (runPrePhase true).answerWith o v = (v', (), t) ∧
      Fed o true v (phaseWork v.modules true v.msg.owner v.msg.premap) v' b t := by
  unfold runPrePhase
  rw [Prog.answerWith_get_bind]
  by_cases hmap : v.msg.phaseMap true = ∅
  · rw [if_neg fun h => h.2 hmap]
    exact ⟨v, false, [], rfl, Fed.skip hmap⟩
  · rw [if_pos ⟨hpre, hmap⟩]
    exact phase_fed v hwf hpre

theorem runPostPhase_fed (hwf : v.modules.Wf) (hpre : v.msg.id.indcPrePhase = false) :
    ∃ v' b t, (runPostPhase false).answerWith o v = (v', (), t) ∧
      Fed o false v (phaseWork v.modules false v.msg.owner v.msg.postmap) v' b t := by
  unfold runPostPhase
  rw [Prog.answerWith_get_bind]
  by_cases hmap : v.msg.phaseMap false = ∅
  · rw [if_neg (not_not.mpr hmap)]
    exact ⟨v, false, [], rfl, Fed.skip hmap⟩
  · rw [if_pos hmap]
    exact phase_fed v hwf hpre

/-- When all modules of a phase have taken the message, its bitmap is empty. -/
theorem clear_work_phaseMap {pre : Bool} (hwf : v.modules.Wf)
    (hmap : v.msg.phaseMap pre ⊆ v.modules.bitmap) :
    (v.clear pre (phaseWork v.modules pre v.msg.owner (v.msg.phaseMap pre))).msg.phaseMap pre =
      ∅ := by
  rw [View.clear_phaseMap, phaseWork_toFinset hwf hmap, Finset.sdiff_self]

/-- `msg_dispatch` has switched to the post-phase. -/
theorem dispatchPost_start (v : View) :
    dispatchPost.answerWith o v =
      (do
        runPostPhase false
        redirectChk do
          let v ← Prog.get
          if v.msg.phaseMap false = ∅ then
            curReqHdl
            pure .recycle
          else
            invalidBitmap : MsgProg Outcome).answerWith o v.inPost := rfl

/-- The post-phase, if no module pends the message: its work is fed, and the message leaves to be
recycled. -/
theorem dispatchPost_alone (hwf : v.modules.Wf) (hpost : v.msg.postmap ⊆ v.modules.bitmap)
    (hredirect : v.msg.status.redirect = none)
    (hpend : ∀ x id, id.indcPrePhase = false → o (.feed x id) ≠ .pending) :
    ∃ v₁ v' b t extra, dispatchPost.answerWith o v = (v', .recycle, t ++ extra) ∧
      Fed o false v.inPost (phaseWork v.modules false v.msg.owner v.msg.postmap) v₁ b t ∧
      (∀ c ∈ extra, ¬ c.1.IsFeed) ∧
      (b = false → v'.msg.status.cancel = v.msg.status.cancel) := by
  obtain ⟨v₁, b, t, hrun, hfed⟩ := runPostPhase_fed (o := o) (v := v.inPost) hwf rfl
  rw [dispatchPost_start]
  cases hfed with
  | all hall =>
    set v₁ := v.inPost.clear false _ with hv₁
    have hempty : v₁.msg.phaseMap false = ∅ := clear_work_phaseMap (v := v.inPost) hwf hpost
    have hchk : v₁.msg.status.redirect = none := by
      rw [hv₁, View.clear_status]
      exact hredirect
    obtain ⟨extra, hextra, hnot⟩ := curReqHdl_alone (o := o) v₁
    refine ⟨v₁, v₁, false, _, extra, Prog.answerWith_bind hrun ?_, .all hall, hnot, fun _ => ?_⟩
    · have hlast := Prog.answerWith_bind (f := fun _ => pure Outcome.recycle) hextra
        (Prog.answerWith_pure o _ v₁)
      rw [List.append_nil] at hlast
      rw [redirectChk_none hchk, Prog.answerWith_get_bind, if_pos hempty]
      exact hlast
    · rw [hv₁, View.clear_status]
      rfl
  | pended hw hl hx => exact absurd hx (hpend _ _ rfl)
  | failed hw hl hx hv' hextra =>
    refine ⟨v₁, v₁, true, _, [], Prog.answerWith_bind hrun ?_, .failed hw hl hx hv' hextra,
      by simp, by simp⟩
    exact redirectChk_some (redirect_fail hv')

/-! ### The visits of a phase on the worklist -/

section Visits

variable (o) (pre : Bool) (id : MsgId) (tail : List (Bool × ℕ)) {l rest : List ℕ} {x : ℕ}

/-- Modules that take the message leave the worklist. -/
theorem visits_all (hid : id.indcPrePhase = pre) (hctrl : ∀ x ∈ l, isDisprCtrl x = false)
    (hall : ∀ x ∈ l, (o (.feed x id)).verdict = .advance) :
    Follows MdlRet.verdict (items pre l ++ tail) (moduleVisits (l.map (visitOf o id))) ∧
      remaining MdlRet.verdict (items pre l ++ tail) (moduleVisits (l.map (visitOf o id))) =
        tail ∧
      ∀ c ∈ moduleVisits (l.map (visitOf o id)), c.2.verdict ≠ .stop := by
  rw [moduleVisits_map hctrl, hid]
  have hitems : ∀ i ∈ items pre l, (o (.feed i.2 id)).verdict = .advance := by
    simpa [items] using hall
  refine ⟨(visits_done _ hitems).1, (visits_done _ hitems).2, ?_⟩
  simpa using fun x hx => ne_of_eq_of_ne (hall x hx) (by decide)

/-- The module after them is visited next. -/
theorem visits_next (hid : id.indcPrePhase = pre)
    (hctrl : ∀ y ∈ l ++ x :: rest, isDisprCtrl y = false)
    (hl : ∀ y ∈ l, (o (.feed y id)).verdict = .advance) :
    Follows MdlRet.verdict (items pre (l ++ x :: rest) ++ tail)
        (moduleVisits ((l ++ [x]).map (visitOf o id))) ∧
      (o (.feed x id) = .pending →
        remaining MdlRet.verdict (items pre (l ++ x :: rest) ++ tail)
          (moduleVisits ((l ++ [x]).map (visitOf o id))) = items pre (x :: rest) ++ tail) := by
  obtain ⟨hf, hr, hs⟩ := visits_all o pre id (items pre (x :: rest) ++ tail) hid
    (fun y hy => hctrl y (List.mem_append_left _ hy)) hl
  have hsplit : items pre (l ++ x :: rest) ++ tail =
      items pre l ++ (items pre (x :: rest) ++ tail) := by
    rw [items, List.map_append, List.append_assoc]
    rfl
  have hlast : moduleVisits ([x].map (visitOf o id)) = [((pre, x), o (.feed x id))] := by
    rw [moduleVisits_map fun y hy => hctrl y (by simp_all), hid]
    rfl
  rw [hsplit, List.map_append, moduleVisits_append, hlast]
  refine ⟨follows_append hf hs ?_, fun hx => ?_⟩
  · rw [hr]
    exact visit_front (fun i : Bool × ℕ => o (.feed i.2 id)) (pre, x) _
  · rw [remaining_append hf hs, hr, hx]
    rfl

end Visits

/-- `msg_dispatch` has read the phase of the message. -/
theorem msgDispatch_start (hpre : v.msg.status.prePhase = true) :
    msgDispatch.answerWith o v =
      (redirectChk do
        notifyDisprController
        redirectChk do
          runPrePhase true
          redirectChk do
            let v ← Prog.get
            if v.msg.phaseMap true = ∅ then dispatchPost else invalidBitmap :
          MsgProg Outcome).answerWith o v.inPre := by
  unfold msgDispatch getMsgBitmap editMsg
  rw [View.inPre, ← hpre]
  rfl

/-- Calls that are not visits of background modules, before the phases. -/
theorem Dispatched.prepend {v' : View} {out : Outcome} {t₁ t : List (MsgCall × MdlRet)}
    (h : Dispatched v v' out t) (hvisits₁ : moduleVisits t₁ = [])
    (ht₁ : ∀ c ∈ t₁, c.2.verdict = .advance) : Dispatched v v' out (t₁ ++ t) := by
  have hvisits : moduleVisits (t₁ ++ t) = moduleVisits t := by
    rw [moduleVisits_append, hvisits₁, List.nil_append]
  cases h with
  | pended hwork hfollows hstop hpend hrest =>
    obtain ⟨c, hc, hcp⟩ := hpend
    refine .pended hwork (hvisits ▸ hfollows) (fun c hc => ?_) ⟨c, List.mem_append_right _ hc, hcp⟩
      (hvisits ▸ hrest)
    rcases List.mem_append.mp hc with hc | hc
    · rw [ht₁ c hc]
      decide
    · exact hstop c hc
  | completed hfollows hrest hcancel =>
    exact .completed (hvisits ▸ hfollows) (hvisits ▸ hrest) hcancel
  | failed hfollows hfail =>
    obtain ⟨c, hc, hcf⟩ := hfail
    exact .failed (hvisits ▸ hfollows) ⟨c, List.mem_append_right _ hc, hcf⟩

/-- The two phases of a runnable message. -/
theorem phases_alone (hv : v.Runnable)
    (hpend : ∀ x id, id.indcPrePhase = false → o (.feed x id) ≠ .pending) :
    ∃ v' out t, (do
        runPrePhase true
        redirectChk do
          let v ← Prog.get
          if v.msg.phaseMap true = ∅ then dispatchPost else invalidBitmap :
        MsgProg Outcome).answerWith o v.inPre = (v', out, t) ∧ Dispatched v v' out t := by
  set pw := phaseWork v.modules true v.msg.owner v.msg.premap with hpw
  set qw := phaseWork v.modules false v.msg.owner v.msg.postmap with hqw
  have hwork : v.work = items true pw ++ items false qw := rfl
  have hpctrl : ∀ x ∈ pw, isDisprCtrl x = false := fun x hx => not_isDisprCtrl_of_mem hv.wf hx
  have hqctrl : ∀ x ∈ qw, isDisprCtrl x = false := fun x hx => not_isDisprCtrl_of_mem hv.wf hx
  obtain ⟨v₂, b, t, hrun, hfed⟩ := runPrePhase_fed (o := o) (v := v.inPre) hv.wf rfl
  cases hfed with
  | all hall =>
    set v₂ := v.inPre.clear true pw with hv₂
    have hredirect : v₂.msg.status.redirect = none := by
      rw [hv₂, View.clear_status]
      simp [View.inPre, MsgStatus.redirect, hv.fail, hv.cancel, hv.pending]
    have hempty : v₂.msg.phaseMap true = ∅ := clear_work_phaseMap (v := v.inPre) hv.wf hv.premap
    obtain ⟨v₃, v', b', t', extra, hrun', hfed', hextra, hcancel⟩ :=
      dispatchPost_alone (o := o) (v := v₂) hv.wf hv.postmap hredirect hpend
    refine ⟨v', .recycle, pw.map (visitOf o v.inPre.msg.id) ++ (t' ++ extra),
      Prog.answerWith_bind hrun ?_, ?_⟩
    · change (redirectChk _).answerWith o v₂ = _
      rw [redirectChk_none hredirect, Prog.answerWith_get_bind, if_pos hempty]
      exact hrun'
    obtain ⟨hf, hr, hs⟩ := visits_all o true v.inPre.msg.id (items false qw) rfl hpctrl hall
    have hvisits : moduleVisits (pw.map (visitOf o v.inPre.msg.id) ++ (t' ++ extra)) =
        moduleVisits (pw.map (visitOf o v.inPre.msg.id)) ++ moduleVisits t' := by
      rw [moduleVisits_append, moduleVisits_append, moduleVisits_eq_nil hextra, List.append_nil]
    cases hfed' with
    | all hall' =>
      obtain ⟨hf', hr', -⟩ := visits_all o false v₂.inPost.msg.id [] rfl hqctrl hall'
      rw [List.append_nil] at hf' hr'
      refine .completed ?_ ?_ ?_
      · rw [hvisits, hwork]
        exact follows_append hf hs (hr.symm ▸ hf')
      · rw [hvisits, hwork, remaining_append hf hs, hr]
        exact hr'
      · rw [hcancel rfl, hv₂, View.clear_status]
        exact hv.cancel
    | pended hw hl hx => exact absurd hx (hpend _ _ rfl)
    | failed hw hl hx hv' hextra' =>
      have hw : qw = _ := hw
      obtain ⟨hf', -⟩ := visits_next o false v₂.inPost.msg.id [] rfl (hw ▸ hqctrl) hl
      rw [← hw, List.append_nil] at hf'
      refine .failed ?_ ⟨_, List.mem_append_right _ (List.mem_append_left _
        (List.mem_append_left _ (List.mem_map_of_mem (List.mem_append_right _
          List.mem_cons_self)))), trivial, hx⟩
      rw [hvisits, hwork, moduleVisits_append, moduleVisits_eq_nil hextra', List.append_nil]
      exact follows_append hf hs (hr.symm ▸ hf')
  | pended hw hl hx =>
    have hw : pw = _ := hw
    obtain ⟨hf, hr⟩ := visits_next o true v.inPre.msg.id (items false qw) rfl (hw ▸ hpctrl) hl
    refine ⟨_, .reschedule, _ ++ [], Prog.answerWith_bind hrun (redirectChk_some ?_), ?_⟩
    · simp [View.pend, View.inPre, MsgStatus.redirect, hv.fail, hv.cancel]
    rw [List.append_nil]
    refine .pended hw ?_ ?_ ?_ ?_
    · rw [hwork, hw]
      exact hf
    · intro c hc
      obtain ⟨y, hy, rfl⟩ := List.mem_map.mp hc
      rcases List.mem_append.mp hy with hy | hy
      · exact ne_of_eq_of_ne (hl y hy) (by decide)
      · rw [List.mem_singleton.mp hy, visitOf, hx]
        simp [MdlRet.verdict]
    · exact ⟨_, List.mem_map_of_mem (List.mem_append_right _ List.mem_cons_self), trivial, hx⟩
    · rw [hwork, hw]
      exact hr hx
  | failed hw hl hx hv' hextra =>
    have hw : pw = _ := hw
    obtain ⟨hf, -⟩ := visits_next o true v.inPre.msg.id (items false qw) rfl (hw ▸ hpctrl) hl
    refine ⟨v₂, .recycle, _ ++ [], Prog.answerWith_bind hrun
      (redirectChk_some (redirect_fail hv')), ?_⟩
    rw [List.append_nil]
    refine .failed ?_ ⟨_, List.mem_append_left _ (List.mem_map_of_mem (List.mem_append_right _
      List.mem_cons_self)), trivial, hx⟩
    rw [hwork, hw, moduleVisits_append, moduleVisits_eq_nil hextra, List.append_nil]
    exact hf

/-- One dispatch of a runnable message, if no module pends it in the post-phase. -/
theorem msgDispatch_alone (hv : v.Runnable)
    (hpend : ∀ x id, id.indcPrePhase = false → o (.feed x id) ≠ .pending) :
    ∃ v' out t, msgDispatch.answerWith o v = (v', out, t) ∧ Dispatched v v' out t := by
  have hredirect : v.inPre.msg.status.redirect = none := by
    simp [View.inPre, MsgStatus.redirect, hv.fail, hv.cancel, hv.pending]
  have hctrl : phlMdlPhyMgnt ∉ v.inPre.msg.premap := by
    intro hmem
    have hwork : phlMdlPhyMgnt ∈ phaseWork v.modules true v.msg.owner v.msg.premap := by
      rw [← List.mem_toFinset, phaseWork_toFinset hv.wf hv.premap]
      exact hmem
    exact absurd (not_isDisprCtrl_of_mem hv.wf hwork) (by decide)
  rw [msgDispatch_start hv.prePhase, redirectChk_none hredirect]
  obtain ⟨v₁, t₁, hrun₁, hvisits₁, ⟨rfl, ht₁⟩ | ⟨rfl, hstop₁, hpend₁⟩ | ⟨hfail₁, hstop₁⟩⟩ :=
    notifyDisprController_alone (o := o) (v := v.inPre) rfl hctrl
  · obtain ⟨v', out, t, hrun, hd⟩ := phases_alone hv hpend
    refine ⟨v', out, t₁ ++ t, Prog.answerWith_bind hrun₁ ?_, hd.prepend hvisits₁ ht₁⟩
    rw [redirectChk_none hredirect]
    exact hrun
  · refine ⟨_, .reschedule, t₁ ++ [], Prog.answerWith_bind hrun₁ (redirectChk_some ?_), ?_⟩
    · simp [View.pend, View.inPre, MsgStatus.redirect, hv.fail, hv.cancel]
    · rw [List.append_nil]
      have hd : Dispatched v (v.inPre.clear true []).pend .reschedule t₁ :=
        .pended rfl (hvisits₁ ▸ follows_nil _) hstop₁ hpend₁ (hvisits₁ ▸ remaining_nil _)
      rwa [View.clear_nil] at hd
  · refine ⟨v₁, .recycle, t₁ ++ [], Prog.answerWith_bind hrun₁
      (redirectChk_some (redirect_fail hfail₁)), ?_⟩
    rw [List.append_nil]
    exact .failed (hvisits₁ ▸ follows_nil _) hstop₁

end Dispatch

/-! ## The life of a message -/

/-- The message as the loop of the dispatcher takes it from the wait queue for a dispatch. -/
def View.taken (v : View) : View :=
  { v with msg := v.msg.popped.andBitmaps v.modules.bitmap }

/-- An accepted message: the calls made for it so far, and whether it has left to be recycled. -/
structure Life where
  view : View
  calls : List (MsgCall × MdlRet)
  finished : Bool

/-- One round of the dispatcher for the message, with the answers of `o`: it is taken from the
wait queue and dispatched, and if it is to be rescheduled it is queued again. -/
def lifeRound (o : MsgCall → MdlRet) (l : Life) : Life :=
  if l.finished then l
  else
    match msgDispatch.answerWith o l.view.taken with
    | (v, .recycle, t) => ⟨v, l.calls ++ t, true⟩
    | (v, .reschedule, t) => ⟨{ v with msg := v.msg.queued }, l.calls ++ t, false⟩

/-- The life of a message after `n` rounds. The answers may differ from round to round. -/
def lifeAfter (o : ℕ → MsgCall → MdlRet) (v : View) : ℕ → Life
  | 0 => ⟨v, [], false⟩
  | n + 1 => lifeRound (o n) (lifeAfter o v n)

/-- A message as `dispr_send_msg` leaves it, as far as it matters for the phases. -/
structure MsgEx.Accepted (m : MsgEx) : Prop where
  prePhase : m.status.prePhase = true
  fail : m.status.fail = false
  cancel : m.status.cancel = false

/-- No visit of a module, the controller included, was answered with a failure. -/
def NoFail (calls : List (MsgCall × MdlRet)) : Prop :=
  ∀ c ∈ calls, c.1.IsFeed → c.2.verdict ≠ .stop

theorem View.taken_runnable {v : View} (hwf : v.modules.Wf) (hv : v.msg.Accepted) :
    v.taken.Runnable where
  wf := hwf
  prePhase := hv.prePhase
  fail := hv.fail
  cancel := hv.cancel
  pending := rfl
  premap := Finset.inter_subset_right
  postmap := Finset.inter_subset_right

section Life

variable {o : MsgCall → MdlRet} {w : List (Bool × ℕ)} {l : Life}

/-- What the rounds keep: the visits so far are a record of work on `w`; as long as the message
is not finished, the rest of `w` is the work the next round will see, and when it is finished
without a failure, nothing is left. -/
structure Life.Inv (w : List (Bool × ℕ)) (l : Life) : Prop where
  follows : Follows MdlRet.verdict w (moduleVisits l.calls)
  running : l.finished = false → l.view.modules.Wf ∧ l.view.msg.Accepted ∧
    (∀ c ∈ l.calls, c.2.verdict ≠ .stop) ∧
    remaining MdlRet.verdict w (moduleVisits l.calls) = l.view.taken.work
  finished : l.finished = true → NoFail l.calls →
    remaining MdlRet.verdict w (moduleVisits l.calls) = [] ∧ l.view.msg.status.cancel = false

/-- A visit is one of the calls. -/
theorem exists_call_of_mem_moduleVisits {t : List (MsgCall × MdlRet)} {i : (Bool × ℕ) × MdlRet}
    (hi : i ∈ moduleVisits t) : ∃ c ∈ t, c.2 = i.2 := by
  obtain ⟨c, hc, hci⟩ := List.mem_filterMap.mp hi
  refine ⟨c, hc, ?_⟩
  split at hci
  · split at hci
    · cases hci
    · exact Option.some.inj hci ▸ rfl
  · cases hci

/-- The work of a message that was pended in the pre-phase is what it has not done yet. -/
theorem pended_work {v : View} (hv : v.Runnable) {l rest : List ℕ}
    (hwork : phaseWork v.modules true v.msg.owner v.msg.premap = l ++ rest) :
    ({ (v.inPre.clear true l).pend with
        msg := (v.inPre.clear true l).pend.msg.queued } : View).taken.work =
      items true rest ++ items false (phaseWork v.modules false v.msg.owner v.msg.postmap) := by
  have hpre : (v.msg.premap \ l.toFinset) ∩ v.modules.bitmap = v.msg.premap \ l.toFinset :=
    Finset.inter_eq_left.mpr (Finset.sdiff_subset.trans hv.premap)
  have hpost : v.msg.postmap ∩ v.modules.bitmap = v.msg.postmap :=
    Finset.inter_eq_left.mpr hv.postmap
  have hrest : phaseWork v.modules true v.msg.owner (v.msg.premap \ l.toFinset) = rest :=
    filter_sdiff (visitOrder_nodup hv.wf v.msg.ownerOk) hwork
  change items true (phaseWork v.modules true v.msg.owner
      ((v.msg.premap \ l.toFinset) ∩ v.modules.bitmap)) ++
    items false (phaseWork v.modules false v.msg.owner (v.msg.postmap ∩ v.modules.bitmap)) = _
  rw [hpre, hpost, hrest]

/-- One round. -/
theorem lifeRound_inv (hpend : ∀ x id, id.indcPrePhase = false → o (.feed x id) ≠ .pending)
    (h : l.Inv w) : (lifeRound o l).Inv w := by
  unfold lifeRound
  cases hfin : l.finished with
  | true => simpa using h
  | false =>
    obtain ⟨hwf, hacc, hstop, hrest⟩ := h.running hfin
    have hv := View.taken_runnable hwf hacc
    obtain ⟨v', out, t, hrun, hd⟩ := msgDispatch_alone hv hpend
    have hstops : ∀ i ∈ moduleVisits l.calls, i.2.verdict ≠ .stop := by
      intro i hi
      obtain ⟨c, hc, hci⟩ := exists_call_of_mem_moduleVisits hi
      exact hci ▸ hstop c hc
    -- the visits of the round continue those of the rounds before
    have hfollows : Follows MdlRet.verdict l.view.taken.work (moduleVisits t) →
        Follows MdlRet.verdict w (moduleVisits (l.calls ++ t)) := by
      intro hf
      rw [moduleVisits_append]
      exact follows_append h.follows hstops (hrest.symm ▸ hf)
    have hremaining : remaining MdlRet.verdict w (moduleVisits (l.calls ++ t)) =
        remaining MdlRet.verdict l.view.taken.work (moduleVisits t) := by
      rw [moduleVisits_append, remaining_append h.follows hstops, hrest]
    simp only [hrun, Bool.false_eq_true, if_false]
    cases hd with
    | pended hwork hf hs hp hr =>
      refine ⟨hfollows hf, fun _ => ⟨hwf, ?_, fun c hc => ?_, ?_⟩, nofun⟩
      · exact ⟨hacc.prePhase, hacc.fail, hacc.cancel⟩
      · rcases List.mem_append.mp hc with hc | hc
        · exact hstop c hc
        · exact hs c hc
      · rw [hremaining, hr, pended_work hv hwork]
    | completed hf hr hcancel =>
      exact ⟨hfollows hf, nofun, fun _ _ => ⟨hremaining.trans hr, hcancel⟩⟩
    | failed hf hfail =>
      refine ⟨hfollows hf, nofun, fun _ hno => ?_⟩
      obtain ⟨c, hc, hfeed, hcs⟩ := hfail
      exact absurd hcs (hno c (List.mem_append_right _ hc) hfeed)

/-- A round in which no module pends the message is its last. -/
theorem lifeRound_finished (hpend : ∀ x id, o (.feed x id) ≠ .pending) (h : l.Inv w) :
    (lifeRound o l).finished = true := by
  unfold lifeRound
  cases hfin : l.finished with
  | true => simpa using hfin
  | false =>
    obtain ⟨hwf, hacc, -, -⟩ := h.running hfin
    obtain ⟨v', out, t, hrun, hd⟩ := msgDispatch_alone (View.taken_runnable hwf hacc)
      fun x id _ => hpend x id
    simp only [hrun, Bool.false_eq_true, if_false]
    cases hd with
    | pended hwork hf hs hp hr =>
      obtain ⟨c, hc, hfeed, hcp⟩ := hp
      have hans : c.2 = o c.1 := by
        have htrace := Res.answerWith_trace o (msgDispatch l.view.taken)
        rw [show (msgDispatch l.view.taken).answerWith o = _ from hrun] at htrace
        exact htrace c hc
      obtain ⟨q, r⟩ := c
      cases q with
      | feed x id => exact absurd (hans.symm.trans hcp) (hpend x id)
      | notifyFail x id => exact hfeed.elim
      | curReq id => exact hfeed.elim
    | completed hf hr hcancel => rfl
    | failed hf hfail => rfl

theorem lifeRound_of_finished (h : l.finished = true) : lifeRound o l = l := by
  rw [lifeRound, if_pos h]

/-- All rounds. -/
theorem lifeAfter_inv {o : ℕ → MsgCall → MdlRet} {v : View} (hwf : v.modules.Wf)
    (hacc : v.msg.Accepted)
    (hpend : ∀ n x id, id.indcPrePhase = false → o n (.feed x id) ≠ .pending) (n : ℕ) :
    (lifeAfter o v n).Inv v.taken.work := by
  induction n with
  | zero => exact ⟨follows_nil _, fun _ => ⟨hwf, hacc, by simp [lifeAfter], remaining_nil _⟩, nofun⟩
  | succ n ih => exact lifeRound_inv (hpend n) ih

theorem lifeAfter_finished {o : ℕ → MsgCall → MdlRet} {v : View} (hwf : v.modules.Wf)
    (hacc : v.msg.Accepted)
    (hpend : ∀ n x id, id.indcPrePhase = false → o n (.feed x id) ≠ .pending) {k n : ℕ}
    (hk : ∀ x id, o k (.feed x id) ≠ .pending) (hkn : k < n) :
    (lifeAfter o v n).finished = true := by
  induction n, hkn using Nat.le_induction with
  | base => exact lifeRound_finished hk (lifeAfter_inv hwf hacc hpend k)
  | succ n _ ih => rw [lifeAfter, lifeRound_of_finished ih, ih]

end Life

/-- The modules a phase visits: each selected module of the dispatcher once, by priority. -/
structure PhaseOrdered (modules : Modules) (pre : Bool) (sel : Finset ℕ) (l : List ℕ) : Prop where
  nodup : l.Nodup
  selected : l.toFinset = sel ∩ modules.bitmap
  sorted : l.Pairwise (PhaseSorted pre)

theorem phaseWork_ordered {modules : Modules} (h : modules.Wf) (pre : Bool) (m : MsgEx)
    (sel : Finset ℕ) :
    PhaseOrdered modules pre sel (phaseWork modules pre m.owner (sel ∩ modules.bitmap)) where
  nodup := (visitOrder_nodup h m.ownerOk).filter _
  selected := phaseWork_toFinset h Finset.inter_subset_right
  sorted := (visitOrder_sorted h m.ownerOk).filter _

/-- The visits that were successful, in order. -/
def successes (calls : List (MsgCall × MdlRet)) : List (Bool × ℕ) :=
  ((moduleVisits calls).filter fun i => decide (i.2.verdict = .advance)).map Prod.fst

/-- The handling of an accepted message over any number of dispatches, for all return codes, as
long as no module pends it in the post-phase: the visits are work on a list with the selected
modules of the pre-phase, by descending priority, and then those of the post-phase, by ascending
priority; each visit is to the first module not done yet, and a module that pends the message is
visited again in the same phase. When no module fails and the message has finished, all modules
have been visited with success in both phases and it is not cancelled; and it has finished after a
round without a pending module. -/
theorem life_handled (v : View) (hwf : v.modules.Wf) (hacc : v.msg.Accepted)
    (o : ℕ → MsgCall → MdlRet)
    (hpend : ∀ n x id, id.indcPrePhase = false → o n (.feed x id) ≠ .pending) :
    ∃ pw qw, PhaseOrdered v.modules true v.msg.premap pw ∧
      PhaseOrdered v.modules false v.msg.postmap qw ∧
      ∀ n, let l := lifeAfter o v n
        Follows MdlRet.verdict (items true pw ++ items false qw) (moduleVisits l.calls) ∧
        successes l.calls <+: items true pw ++ items false qw ∧
        (l.finished = true → NoFail l.calls → l.view.msg.status.cancel = false ∧
          successes l.calls = items true pw ++ items false qw) ∧
        ∀ k < n, (∀ x id, o k (.feed x id) ≠ .pending) → l.finished = true := by
  refine ⟨_, _, phaseWork_ordered hwf true v.msg v.msg.premap,
    phaseWork_ordered hwf false v.msg v.msg.postmap, fun n => ?_⟩
  have hinv := lifeAfter_inv hwf hacc hpend n
  have hdone := done_append_remaining hinv.follows
  refine ⟨hinv.follows, ⟨_, hdone⟩, fun hfin hno => ?_, fun k hkn hk => ?_⟩
  · obtain ⟨hrest, hcancel⟩ := hinv.finished hfin hno
    refine ⟨hcancel, ?_⟩
    rw [hrest, List.append_nil] at hdone
    exact hdone
  · exact lifeAfter_finished hwf hacc hpend hk hkn

/-- A role module and a mandatory one. -/
def twoModules : Modules where
  bitmap := {10, 41}
  basemap := {10, 41}
  moduleQ
    | .role => [⟨10, true⟩]
    | .optional => []
    | .mandatory => [⟨41, true⟩]

theorem twoModules_wf : twoModules.Wf where
  placed p := by cases p <;> decide
  nodup p := by cases p <;> decide
  present id hid := by
    rcases Finset.mem_insert.mp hid with rfl | hid
    · exact ⟨.role, ⟨10, true⟩, by decide, rfl, rfl⟩
    · obtain rfl := Finset.mem_singleton.mp hid
      exact ⟨.mandatory, ⟨41, true⟩, by decide, rfl, rfl⟩

/-- A message of the module 10 to both modules. -/
def toBoth : View where
  msg :=
    { status := { enq := true, prePhase := true, ownerBkMdl := true }
      id := { mdlId := 10, evtId := 1 }
      premap := {10, 41}
      postmap := {10, 41}
      module := some 10 }
  modules := twoModules
  ctrlPresent := true
  reqActive := false

/-- The module `mdl` pends the message in the phase `pre` of the first round. -/
def pendOnce (mdl : ℕ) (pre : Bool) (n : ℕ) : MsgCall → MdlRet
  | .feed x id => if n = 0 ∧ x = mdl ∧ id.indcPrePhase = pre then .pending else .success
  | _ => .success

theorem life_handled_resumed :
    twoModules.Wf ∧ toBoth.msg.Accepted ∧
      (∀ n x id, id.indcPrePhase = false → pendOnce 10 true n (.feed x id) ≠ .pending) ∧
      ∃ pw qw, PhaseOrdered twoModules true {10, 41} pw ∧
        PhaseOrdered twoModules false {10, 41} qw ∧
        (lifeAfter (pendOnce 10 true) toBoth 2).finished = true ∧
        successes (lifeAfter (pendOnce 10 true) toBoth 2).calls =
          items true pw ++ items false qw := by
  have hpend : ∀ n x id, id.indcPrePhase = false → pendOnce 10 true n (.feed x id) ≠ .pending := by
    intro n x id hid
    simp [pendOnce, hid]
  obtain ⟨pw, qw, hpw, hqw, hlife⟩ :=
    life_handled toBoth twoModules_wf ⟨rfl, rfl, rfl⟩ (pendOnce 10 true) hpend
  have hfin : (lifeAfter (pendOnce 10 true) toBoth 2).finished = true := by decide +kernel
  have hno : ∀ c ∈ (lifeAfter (pendOnce 10 true) toBoth 2).calls, c.2.verdict ≠ .stop := by
    decide +kernel
  exact ⟨twoModules_wf, ⟨rfl, rfl, rfl⟩, hpend, pw, qw, hpw, hqw, hfin,
    ((hlife 2).2.2.1 hfin fun c hc _ => hno c hc).2⟩

/-- A message that the module 41 pends in the post-phase of its first dispatch is cancelled in
the second, although no module has failed it, and the module is not visited again. -/
theorem post_phase_pending_cancelled :
    twoModules.Wf ∧ toBoth.msg.Accepted ∧
      (let l := lifeAfter (pendOnce 41 false) toBoth 2
       l.finished = true ∧ NoFail l.calls ∧ l.view.msg.status.cancel = true ∧
         successes l.calls = [(true, 41), (true, 10), (false, 10)]) := by
  have hno : ∀ c ∈ (lifeAfter (pendOnce 41 false) toBoth 2).calls, c.2.verdict ≠ .stop := by
    decide +kernel
  exact ⟨twoModules_wf, ⟨rfl, rfl, rfl⟩, by decide +kernel, fun c hc _ => hno c hc,
    by decide +kernel, by decide +kernel⟩

end Rtl88x2cu.Dispatcher
