import Mathlib.Algebra.Order.Ring.Nat
import Mathlib.Data.List.Perm.Basic
import Mathlib.Data.List.TakeWhile
import Mathlib.Tactic.Common

/-!
# `phl_queue`

The counted list of `phl/phl_util.c`, with the operations the command dispatcher uses. The nodes
are list heads embedded in larger structures; here they are names of these structures. Every
operation holds the lock of its queue, so it is atomic.

`PhlQueue.Wf` says that the counter is the length of the list. All operations keep it, and on a
well-formed queue `pq_pop` fails only if the list is empty.
-/

namespace Rtl88x2cu

variable {α : Type}

/-- `struct phl_queue`. -/
structure PhlQueue (α : Type) where
  queue : List α
  cnt : ℤ
  deriving DecidableEq, Repr

/-- `pq_init`. -/
def pqInit : PhlQueue α := { queue := [], cnt := 0 }

/-- `pq_push` at the tail. -/
def pqPush (q : PhlQueue α) (x : α) : PhlQueue α :=
  { queue := q.queue ++ [x], cnt := q.cnt + 1 }

/-- `pq_push` at the front. -/
def pqPushFirst (q : PhlQueue α) (x : α) : PhlQueue α :=
  { queue := x :: q.queue, cnt := q.cnt + 1 }

/-- `pq_pop` from the front. -/
def pqPop (q : PhlQueue α) : Option (α × PhlQueue α) :=
  match q.queue with
  | [] => none
  | x :: l => if 0 < q.cnt then some (x, { queue := l, cnt := q.cnt - 1 }) else none

/-- `pq_get_front`. -/
def pqGetFront (q : PhlQueue α) : Option α :=
  if 0 < q.cnt then q.queue.head? else none

/-- `pq_insert`: before the first node for which the predicate holds, else at the tail. -/
def pqInsert (q : PhlQueue α) (predicate : α → α → Bool) (x : α) : PhlQueue α where
  queue := q.queue.takeWhile (fun y => !predicate x y) ++
    x :: q.queue.dropWhile (fun y => !predicate x y)
  cnt := q.cnt + 1

/-- `pq_del_node`. -/
def pqDelNode [DecidableEq α] (q : PhlQueue α) (x : α) : PhlQueue α :=
  { queue := q.queue.erase x, cnt := q.cnt - 1 }

/-- The counter is the length of the list. -/
def PhlQueue.Wf (q : PhlQueue α) : Prop := q.cnt = q.queue.length

instance (q : PhlQueue α) : Decidable q.Wf := inferInstanceAs (Decidable (_ = _))

namespace PhlQueue

variable {q q' : PhlQueue α} {x : α}

theorem wf_init : (pqInit : PhlQueue α).Wf := rfl

theorem Wf.push (h : q.Wf) (x : α) : (pqPush q x).Wf := by
  simp only [Wf, pqPush, List.length_append, List.length_singleton] at h ⊢
  omega

theorem Wf.pushFirst (h : q.Wf) (x : α) : (pqPushFirst q x).Wf := by
  simp only [Wf, pqPushFirst, List.length_cons] at h ⊢
  omega

/-- What a successful pop says about the queue. -/
theorem pop_spec (h : pqPop q = some (x, q')) :
    q.queue = x :: q'.queue ∧ q'.cnt = q.cnt - 1 := by
  unfold pqPop at h
  split at h
  · cases h
  next hq =>
    split at h
    · obtain ⟨rfl, rfl⟩ := Prod.mk.inj (Option.some.inj h)
      exact ⟨hq, rfl⟩
    · cases h

theorem Wf.pop (h : q.Wf) (hp : pqPop q = some (x, q')) : q'.Wf := by
  obtain ⟨hq, hcnt⟩ := pop_spec hp
  simp only [Wf, hq, List.length_cons] at h ⊢
  omega

/-- A pop from a well-formed queue fails only if there is nothing to pop. -/
theorem Wf.pop_eq_none (h : q.Wf) (hp : pqPop q = none) : q.queue = [] := by
  unfold pqPop at hp
  split at hp
  · assumption
  next hq =>
    split at hp
    · cases hp
    next hcnt =>
      simp only [Wf, hq, List.length_cons] at h
      omega

/-- A well-formed queue gives the node at its front. -/
theorem Wf.pop_eq_some {l : List α} (h : q.Wf) (hq : q.queue = x :: l) :
    ∃ q', pqPop q = some (x, q') ∧ q'.queue = l ∧ q'.Wf := by
  have hcnt : 0 < q.cnt := by
    simp only [Wf, hq, List.length_cons] at h
    omega
  have hpop : pqPop q = some (x, { queue := l, cnt := q.cnt - 1 }) := by
    rw [pqPop, hq]
    exact if_pos hcnt
  exact ⟨_, hpop, rfl, h.pop hpop⟩

/-- An insertion adds the node somewhere. -/
theorem insert_perm (q : PhlQueue α) (predicate : α → α → Bool) (x : α) :
    (pqInsert q predicate x).queue.Perm (x :: q.queue) := by
  have hsplit := List.takeWhile_append_dropWhile (p := fun y => !predicate x y) (l := q.queue)
  conv_rhs => rw [← hsplit]
  exact List.perm_middle

theorem Wf.insert (h : q.Wf) (predicate : α → α → Bool) (x : α) :
    (pqInsert q predicate x).Wf := by
  have hlen := (insert_perm q predicate x).length_eq
  rw [List.length_cons] at hlen
  have hcnt : (pqInsert q predicate x).cnt = q.cnt + 1 := rfl
  simp only [Wf] at h ⊢
  omega

theorem Wf.delNode [DecidableEq α] (h : q.Wf) (hx : x ∈ q.queue) : (pqDelNode q x).Wf := by
  have hpos := List.length_pos_of_mem hx
  simp only [Wf, pqDelNode, List.length_erase_of_mem hx] at h ⊢
  omega

end PhlQueue

end Rtl88x2cu
