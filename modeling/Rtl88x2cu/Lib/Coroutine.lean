import Rtl88x2cu.Lib.Run

/-!
# Threads that call out

A thread works on a shared state `σ`, calls its environment with queries `κ` and continues with
the answers `ρ`. While it waits for an answer the environment may change the shared state.
`Res σ κ ρ α` is such a computation as far as it is determined by the thread, and
`Prog σ κ ρ α` a program that is started in a state.

* `Triple T E C P p Q` is a rely-guarantee triple: started in a state satisfying `P`, the program
  `p` moves the state only by `T`, calls out only where `C` holds, and ends in `Q`, if the
  environment moves the state by `E`.
* `Res.answerWith` runs a program alone, with all answers given by an oracle, and records the
  calls it makes.
* `CoState` and `coStep` are the machine in which a thread, given segment by segment, runs
  against an environment. `coRun_invariant` derives invariants of all its runs from triples for
  the segments.
-/

namespace Rtl88x2cu

/-- A computation that has ended, or waits for the answer to a call. -/
inductive Res (σ κ ρ α : Type) : Type where
  | done (s : σ) (a : α)
  | call (q : κ) (s : σ) (k : σ → ρ → Res σ κ ρ α)

variable {σ κ ρ α β : Type}

/-- Continue with `f` where the first computation ends. -/
def Res.bind : Res σ κ ρ α → (σ → α → Res σ κ ρ β) → Res σ κ ρ β
  | .done s a, f => f s a
  | .call q s k, f => .call q s fun s' r => (k s' r).bind f

/-- A program is started in a state. -/
def Prog (σ κ ρ α : Type) : Type := σ → Res σ κ ρ α

instance : Monad (Prog σ κ ρ) where
  pure a := fun s => .done s a
  bind p f := fun s => (p s).bind fun s' a => f a s'

/-- Read the state. -/
def Prog.get : Prog σ κ ρ σ := fun s => .done s s

/-- Change the state. -/
def Prog.modify (f : σ → σ) : Prog σ κ ρ Unit := fun s => .done (f s) ()

/-- Call the environment. -/
def Prog.call (q : κ) : Prog σ κ ρ ρ := fun s => .call q s fun s' r => .done s' r

/-! ## Rely-guarantee triples -/

/-- From `s` on, the computation moves the state by `T` between its calls, makes its calls in
states that satisfy `C`, and ends in `Q`, if the environment moves the state by `E` during the
calls. -/
def Res.Sat (T E : σ → σ → Prop) (C : σ → κ → Prop) (Q : σ → α → Prop) : σ → Res σ κ ρ α → Prop
  | s, .done s' a => T s s' ∧ Q s' a
  | s, .call q s' k => T s s' ∧ C s' q ∧ ∀ s'' r, E s' s'' → Res.Sat T E C Q s'' (k s'' r)

/-- The program satisfies `Q` at its end whenever it is started in `P`. -/
def Triple (T E : σ → σ → Prop) (C : σ → κ → Prop) (P : σ → Prop) (p : Prog σ κ ρ α)
    (Q : σ → α → Prop) : Prop :=
  ∀ s, P s → (p s).Sat T E C Q s

section Rules

variable {T E : σ → σ → Prop} {C : σ → κ → Prop} {P P' : σ → Prop} {Q Q' : σ → α → Prop}
  {R : σ → β → Prop}

theorem Res.Sat.mono {s : σ} {m : Res σ κ ρ α} (h : m.Sat T E C Q s)
    (hQ : ∀ s a, Q s a → Q' s a) : m.Sat T E C Q' s := by
  induction m generalizing s with
  | done s' a => exact ⟨h.1, hQ s' a h.2⟩
  | call q s' k ih => exact ⟨h.1, h.2.1, fun s'' r he => ih s'' r (h.2.2 s'' r he)⟩

/-- A move before the computation. -/
theorem Res.Sat.prepend (hT : ∀ s s' s'', T s s' → T s' s'' → T s s'') {s₀ s : σ}
    {m : Res σ κ ρ α} (h₀ : T s₀ s) (h : m.Sat T E C Q s) : m.Sat T E C Q s₀ := by
  cases m with
  | done s' a => exact ⟨hT _ _ _ h₀ h.1, h.2⟩
  | call q s' k => exact ⟨hT _ _ _ h₀ h.1, h.2⟩

theorem Res.Sat.bind (hT : ∀ s s' s'', T s s' → T s' s'' → T s s'') {s : σ} {m : Res σ κ ρ α}
    {f : σ → α → Res σ κ ρ β} (h : m.Sat T E C Q s) (hf : ∀ s a, Q s a → (f s a).Sat T E C R s) :
    (m.bind f).Sat T E C R s := by
  induction m generalizing s with
  | done s' a => exact Res.Sat.prepend hT h.1 (hf s' a h.2)
  | call q s' k ih => exact ⟨h.1, h.2.1, fun s'' r he => ih s'' r (h.2.2 s'' r he)⟩

theorem Triple.pure (hT : ∀ s, T s s) {a : α} (h : ∀ s, P s → Q s a) :
    Triple T E C P (Pure.pure a : Prog σ κ ρ α) Q :=
  fun s hs => ⟨hT s, h s hs⟩

/-- Sequencing. -/
theorem Triple.bind (hT : ∀ s s' s'', T s s' → T s' s'' → T s s'') {p : Prog σ κ ρ α}
    {f : α → Prog σ κ ρ β} (hp : Triple T E C P p Q)
    (hf : ∀ a, Triple T E C (fun s => Q s a) (f a) R) : Triple T E C P (p >>= f) R :=
  fun s hs => (hp s hs).bind hT fun s' a h => hf a s' h

theorem Triple.mono {p : Prog σ κ ρ α} (h : Triple T E C P p Q) (hP : ∀ s, P' s → P s)
    (hQ : ∀ s a, Q s a → Q' s a) : Triple T E C P' p Q' :=
  fun s hs => (h s (hP s hs)).mono hQ

theorem Triple.get (hT : ∀ s, T s s) :
    Triple T E C P (Prog.get : Prog σ κ ρ σ) (fun s a => P s ∧ a = s) :=
  fun s hs => ⟨hT s, hs, rfl⟩

theorem Triple.modify {Q : σ → Unit → Prop} {f : σ → σ} (h : ∀ s, P s → T s (f s) ∧ Q (f s) ()) :
    Triple T E C P (Prog.modify f : Prog σ κ ρ Unit) Q :=
  fun s hs => h s hs

/-- A call keeps what the environment keeps. -/
theorem Triple.call (hT : ∀ s, T s s) {Q : σ → ρ → Prop} (q : κ) (hC : ∀ s, P s → C s q)
    (h : ∀ s s' r, P s → E s s' → Q s' r) : Triple T E C P (Prog.call q : Prog σ κ ρ ρ) Q :=
  fun s hs => ⟨hT s, hC s hs, fun s' r he => ⟨hT s', h s s' r hs he⟩⟩

end Rules

/-! ## Running alone -/

/-- Run a computation with the answers of an oracle and an environment that leaves the state
alone; the result has the calls made and their answers, in order. -/
def Res.answerWith (o : κ → ρ) : Res σ κ ρ α → σ × α × List (κ × ρ)
  | .done s a => (s, a, [])
  | .call q s k =>
    let out := (k s (o q)).answerWith o
    (out.1, out.2.1, (q, o q) :: out.2.2)

/-- Run a program alone. -/
def Prog.answerWith (p : Prog σ κ ρ α) (o : κ → ρ) (s : σ) : σ × α × List (κ × ρ) :=
  (p s).answerWith o

theorem Res.answerWith_bind (o : κ → ρ) (m : Res σ κ ρ α) (f : σ → α → Res σ κ ρ β) :
    (m.bind f).answerWith o =
      (let out := m.answerWith o
       let out' := (f out.1 out.2.1).answerWith o
       (out'.1, out'.2.1, out.2.2 ++ out'.2.2)) := by
  induction m with
  | done s a => rfl
  | call q s k ih => simp only [Res.bind, Res.answerWith, ih, List.cons_append]

/-- The recorded answers are those of the oracle. -/
theorem Res.answerWith_trace (o : κ → ρ) (m : Res σ κ ρ α) :
    ∀ c ∈ (m.answerWith o).2.2, c.2 = o c.1 := by
  induction m with
  | done s a => simp [Res.answerWith]
  | call q s k ih =>
    simp only [Res.answerWith, List.forall_mem_cons]
    exact ⟨trivial, ih s (o q)⟩

@[simp]
theorem Prog.answerWith_pure (o : κ → ρ) (a : α) (s : σ) :
    (Pure.pure a : Prog σ κ ρ α).answerWith o s = (s, a, []) := rfl

/-- Two programs run one after the other. -/
theorem Prog.answerWith_bind {p : Prog σ κ ρ α} {f : α → Prog σ κ ρ β} {o : κ → ρ}
    {s s₁ s₂ : σ} {a : α} {b : β} {t₁ t₂ : List (κ × ρ)} (h₁ : p.answerWith o s = (s₁, a, t₁))
    (h₂ : (f a).answerWith o s₁ = (s₂, b, t₂)) :
    (p >>= f).answerWith o s = (s₂, b, t₁ ++ t₂) := by
  have hbind := Res.answerWith_bind o (p s) fun s' a => f a s'
  rw [show (p s).answerWith o = (s₁, a, t₁) from h₁] at hbind
  simp only [show (f a s₁).answerWith o = (s₂, b, t₂) from h₂] at hbind
  exact hbind

@[simp]
theorem Prog.answerWith_get_bind (f : σ → Prog σ κ ρ β) (o : κ → ρ) (s : σ) :
    (Prog.get >>= f).answerWith o s = (f s).answerWith o s := rfl

@[simp]
theorem Prog.answerWith_modify (f : σ → σ) (o : κ → ρ) (s : σ) :
    (Prog.modify f : Prog σ κ ρ Unit).answerWith o s = (f s, (), []) := rfl

@[simp]
theorem Prog.answerWith_modify_bind (g : σ → σ) (f : Unit → Prog σ κ ρ β) (o : κ → ρ) (s : σ) :
    (Prog.modify g >>= f).answerWith o s = (f ()).answerWith o (g s) := rfl

@[simp]
theorem Prog.answerWith_call (q : κ) (o : κ → ρ) (s : σ) :
    (Prog.call q : Prog σ κ ρ ρ).answerWith o s = (s, o q, [(q, o q)]) := rfl

/-! ## Working on a part of the state -/

section Focus

variable {τ κ' : Type}

/-- Run a computation on the part `get t` of a larger state. What the environment does to the
part during a call is seen when the call returns. -/
def Res.focus (get : τ → σ) (put : τ → σ → τ) (f : κ → κ') : Res σ κ ρ α → τ → Res τ κ' ρ α
  | .done s a, t => .done (put t s) a
  | .call q s k, t => .call (f q) (put t s) fun t' r => (k (get t') r).focus get put f t'

/-- The program `p` on the part `get t` of a larger state. -/
def Prog.focus (get : τ → σ) (put : τ → σ → τ) (f : κ → κ') (p : Prog σ κ ρ α) :
    Prog τ κ' ρ α :=
  fun t => (p (get t)).focus get put f t

/-- A program whose moves on the part are moves of the whole, and which relies on nothing, keeps
on the whole what the environment keeps. -/
theorem Triple.focus {get : τ → σ} {put : τ → σ → τ} {f : κ → κ'} {T' E' : τ → τ → Prop}
    {C' : τ → κ' → Prop} {T : σ → σ → Prop} {P : τ → Prop} {p : Prog σ κ ρ α}
    (hmove : ∀ t s, P t → T (get t) s → T' t (put t s) ∧ P (put t s))
    (hstable : ∀ t t', P t → E' t t' → P t') (hcall : ∀ t q, P t → C' t (f q))
    (hp : Triple T (fun _ _ => True) (fun _ _ => True) (fun _ => True) p (fun _ _ => True)) :
    Triple T' E' C' P (p.focus get put f) (fun t _ => P t) := by
  suffices h : ∀ (m : Res σ κ ρ α) (t : τ), P t →
      m.Sat T (fun _ _ => True) (fun _ _ => True) (fun _ _ => True) (get t) →
      (m.focus get put f t).Sat T' E' C' (fun t _ => P t) t by
    intro t ht
    exact h (p (get t)) t ht (hp (get t) trivial)
  intro m
  induction m with
  | done s a =>
    intro t ht hm
    exact hmove t s ht hm.1
  | call q s k ih =>
    intro t ht hm
    refine ⟨(hmove t s ht hm.1).1, hcall _ q (hmove t s ht hm.1).2, fun t' r he => ?_⟩
    have ht' := hstable _ _ (hmove t s ht hm.1).2 he
    exact ih (get t') r t' ht' (hm.2.2 (get t') r trivial)

end Focus

/-! ## The machine -/

section Machine

variable {Pc ε : Type}

/-- Where the thread is: before the segment `pc`, or in a call. -/
inductive CoThread (σ κ ρ Pc : Type) : Type where
  | before (pc : Pc)
  | waiting (q : κ) (k : σ → ρ → Res σ κ ρ Pc)

/-- The shared state and the thread. -/
structure CoState (σ κ ρ Pc : Type) where
  shared : σ
  thread : CoThread σ κ ρ Pc

/-- What happens next: an action of the environment, the next segment of the thread, or the
answer to its call. -/
inductive CoEvent (ε ρ : Type) where
  | env (e : ε)
  | go
  | ret (r : ρ)

/-- The machine when a computation of the thread has ended or called out. -/
def Res.toCoState : Res σ κ ρ Pc → CoState σ κ ρ Pc
  | .done s pc => ⟨s, .before pc⟩
  | .call q s k => ⟨s, .waiting q k⟩

/-- One step of the machine; `none` if the event is not possible. -/
def coStep (seg : Pc → Prog σ κ ρ Pc) (env : σ → ε → σ) (m : CoState σ κ ρ Pc) :
    CoEvent ε ρ → Option (CoState σ κ ρ Pc)
  | .env e => some { m with shared := env m.shared e }
  | .go =>
    match m.thread with
    | .before pc => some (seg pc m.shared).toCoState
    | .waiting _ _ => none
  | .ret r =>
    match m.thread with
    | .before _ => none
    | .waiting _ k => some (k m.shared r).toCoState

/-- The thread is where its segments leave it: it satisfies the precondition of its segment, or
its call was allowed and can be answered. -/
def CoState.Ready (T E : σ → σ → Prop) (C : σ → κ → Prop) (Pre : Pc → σ → Prop)
    (m : CoState σ κ ρ Pc) : Prop :=
  match m.thread with
  | .before pc => Pre pc m.shared
  | .waiting q k => C m.shared q ∧
      ∀ s r, E m.shared s → (k s r).Sat T E C (fun s pc => Pre pc s) s

/-- A condition on the actions of the environment, taken on the shared state. -/
def EnvOk (ok : σ → ε → Prop) (m : CoState σ κ ρ Pc) : CoEvent ε ρ → Prop
  | .env e => ok m.shared e
  | _ => True

instance (ok : σ → ε → Prop) [∀ s a, Decidable (ok s a)] (m : CoState σ κ ρ Pc)
    (e : CoEvent ε ρ) : Decidable (EnvOk ok m e) :=
  match e with
  | .env a => inferInstanceAs (Decidable (ok m.shared a))
  | .go => isTrue True.intro
  | .ret _ => isTrue True.intro

variable {seg : Pc → Prog σ κ ρ Pc} {env : σ → ε → σ} {T E : σ → σ → Prop} {C : σ → κ → Prop}
  {Pre : Pc → σ → Prop} {I : σ → Prop} {ok : σ → ε → Prop}

/-- Every run meets a condition that holds of all actions. -/
theorem guarded_envOk (h : ∀ s a, ok s a) (m : CoState σ κ ρ Pc) (es : List (CoEvent ε ρ)) :
    Guarded (coStep seg env) (EnvOk ok) m es := by
  induction es generalizing m with
  | nil => trivial
  | cons e es ih =>
    refine ⟨?_, fun m' _ => ih m'⟩
    cases e with
    | env a => exact h m.shared a
    | go => trivial
    | ret r => trivial

theorem Res.Sat.ready {s : σ} {m : Res σ κ ρ Pc} (h : m.Sat T E C (fun s pc => Pre pc s) s) :
    T s m.toCoState.shared ∧ m.toCoState.Ready T E C Pre := by
  cases m with
  | done s' a => exact h
  | call q s' k => exact h

/-- One step of the machine keeps the thread ready, and moves the shared state by `T` or by an
action of the environment. -/
theorem coStep_ready (hrefl : ∀ s, E s s) (htrans : ∀ s s' s'', E s s' → E s' s'' → E s s'')
    (hseg : ∀ pc, Triple T E C (Pre pc) (seg pc) (fun s pc' => Pre pc' s))
    (hpre : ∀ pc s s', Pre pc s → E s s' → Pre pc s')
    (hcall : ∀ q s s', C s q → E s s' → C s' q) {m m' : CoState σ κ ρ Pc}
    {e : CoEvent ε ρ} (henv : ∀ a, e = .env a → E m.shared (env m.shared a))
    (hm : m.Ready T E C Pre) (h : coStep seg env m e = some m') :
    m'.Ready T E C Pre ∧
      (T m.shared m'.shared ∨ ∃ a, e = .env a ∧ m'.shared = env m.shared a) := by
  obtain ⟨s, th⟩ := m
  cases e with
  | env a =>
    obtain rfl := Option.some.inj h
    refine ⟨?_, Or.inr ⟨a, rfl, rfl⟩⟩
    have he := henv a rfl
    cases th with
    | before pc => exact hpre pc _ _ hm he
    | waiting q k =>
      exact ⟨hcall q _ _ hm.1 he, fun s' r hs' => hm.2 s' r (htrans _ _ _ he hs')⟩
  | go =>
    cases th with
    | before pc =>
      obtain rfl := Option.some.inj h
      have hsat := (hseg pc s hm).ready
      exact ⟨hsat.2, Or.inl hsat.1⟩
    | waiting q k => cases h
  | ret r =>
    cases th with
    | before pc => cases h
    | waiting q k =>
      obtain rfl := Option.some.inj h
      have hsat := (hm.2 s r (hrefl s)).ready
      exact ⟨hsat.2, Or.inl hsat.1⟩

/-- What the moves of the thread and the allowed actions of the environment keep holds in every
state of every run, and the thread is always where its segments leave it. -/
theorem coRun_invariant (hrefl : ∀ s, E s s)
    (htrans : ∀ s s' s'', E s s' → E s' s'' → E s s'')
    (hseg : ∀ pc, Triple T E C (Pre pc) (seg pc) (fun s pc' => Pre pc' s))
    (hpre : ∀ pc s s', Pre pc s → E s s' → Pre pc s')
    (hcall : ∀ q s s', C s q → E s s' → C s' q) (henv : ∀ s a, I s → E s (env s a))
    (hT : ∀ s s', T s s' → I s → I s') (hok : ∀ s a, ok s a → I s → I (env s a))
    (es : List (CoEvent ε ρ)) {m m' : CoState σ κ ρ Pc} (hm : m.Ready T E C Pre) (hI : I m.shared)
    (hes : Guarded (coStep seg env) (EnvOk ok) m es) (h : run (coStep seg env) m es = some m') :
    m'.Ready T E C Pre ∧ I m'.shared := by
  induction es generalizing m with
  | nil => exact Option.some.inj h ▸ ⟨hm, hI⟩
  | cons e es ih =>
    obtain ⟨m₁, h₁, h⟩ := Option.bind_eq_some_iff.mp h
    obtain ⟨hm₁, hmove⟩ := coStep_ready hrefl htrans hseg hpre hcall
      (fun a _ => henv m.shared a hI) hm h₁
    refine ih hm₁ ?_ (hes.2 m₁ h₁) h
    rcases hmove with hmove | ⟨a, rfl, hmove⟩
    · exact hT _ _ hmove hI
    · exact hmove ▸ hok _ a hes.1 hI

end Machine

end Rtl88x2cu
