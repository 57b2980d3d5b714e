import Mathlib.Algebra.Order.Ring.Nat
import Mathlib.Data.List.Basic
import Mathlib.Data.List.Nodup
import Mathlib.Logic.Function.Basic
import Mathlib.Tactic.Common

/-!
# Chains linked in both directions

The entries of a hash table hang in chains, one for each bucket. Each entry has a pointer `next` to
the entry after it and a pointer `pprev` to the pointer that leads to it, which is the head of the
bucket or the `next` of the entry before. So an entry can be taken out without its bucket.

`Chained c b` says that the pointers `c` form the chains `b`:

- `Chained.link`: linking an entry puts it in front of its chain;
- `Chained.unlink`: unlinking an entry deletes it from the chain it is in;
- `Chained.walk_eq`: walking along a bucket finds what is in its chain.
-/

namespace Rtl88x2cu

variable {ι α : Type}

/-- A place that holds a pointer to an entry. -/
inductive ChainSlot (ι α : Type) where
  | head (i : ι)
  | next (a : α)
  deriving DecidableEq, Repr

/-- The heads of the buckets, and the two pointers of each entry. -/
structure Chains (ι α : Type) where
  head : ι → Option α
  next : α → Option α
  pprev : α → Option (ChainSlot ι α)

namespace Chains

/-- Empty buckets. -/
def empty : Chains ι α := { head := fun _ => none, next := fun _ => none, pprev := fun _ => none }

/-- Read a pointer. -/
def get (c : Chains ι α) : ChainSlot ι α → Option α
  | .head i => c.head i
  | .next a => c.next a

/-- The first entry satisfying `p` on the way from the entry `a`, in at most `n` steps. -/
def walk (c : Chains ι α) (p : α → Bool) : ℕ → Option α → Option α
  | 0, _ => none
  | _ + 1, none => none
  | n + 1, some a => if p a then some a else walk c p n (c.next a)

theorem next_eq_get (c : Chains ι α) (a : α) : c.next a = c.get (.next a) := rfl

theorem head_eq_get (c : Chains ι α) (i : ι) : c.head i = c.get (.head i) := rfl

variable [DecidableEq α]

/-- Write the back pointer of an entry, if there is one. -/
def setPprev (c : Chains ι α) (p : ChainSlot ι α) : Option α → Chains ι α
  | none => c
  | some a => { c with pprev := Function.update c.pprev a (some p) }

@[simp]
theorem get_setPprev (c : Chains ι α) (p q : ChainSlot ι α) (a : Option α) :
    (c.setPprev p a).get q = c.get q := by
  cases a <;> cases q <;> rfl

@[simp]
theorem pprev_setPprev (c : Chains ι α) (p : ChainSlot ι α) (a : Option α) (x : α) :
    (c.setPprev p a).pprev x = if a = some x then some p else c.pprev x := by
  cases a with
  | none => simp [setPprev]
  | some a => simp [setPprev, Function.update_apply, eq_comm]

variable [DecidableEq ι]

/-- Write a pointer. -/
def set (c : Chains ι α) (v : Option α) : ChainSlot ι α → Chains ι α
  | .head i => { c with head := Function.update c.head i v }
  | .next a => { c with next := Function.update c.next a v }

/-- Link the entry `a` in front of bucket `i`. -/
def link (c : Chains ι α) (a : α) (i : ι) : Chains ι α :=
  let c := c.set (c.head i) (.next a)
  let c := c.setPprev (.next a) (c.next a)
  let c := c.set (some a) (.head i)
  c.setPprev (.head i) (some a)

/-- Unlink the entry `a`. -/
def unlink (c : Chains ι α) (a : α) : Chains ι α :=
  match c.pprev a with
  | none => c
  | some p =>
    let c := c.set (c.next a) p
    let c := c.setPprev p (c.next a)
    let c := c.set none (.next a)
    { c with pprev := Function.update c.pprev a none }

@[simp]
theorem get_set (c : Chains ι α) (v : Option α) (p q : ChainSlot ι α) :
    (c.set v p).get q = if q = p then v else c.get q := by
  cases p <;> cases q <;> simp [set, get, Function.update_apply]

@[simp]
theorem pprev_set (c : Chains ι α) (v : Option α) (p : ChainSlot ι α) :
    (c.set v p).pprev = c.pprev := by
  cases p <;> rfl

theorem get_link (c : Chains ι α) (a : α) (i : ι) (q : ChainSlot ι α) :
    (c.link a i).get q =
      if q = .head i then some a else if q = .next a then c.head i else c.get q := by
  simp [link]

theorem pprev_link (c : Chains ι α) (a x : α) (i : ι) :
    (c.link a i).pprev x =
      if x = a then some (.head i) else if c.head i = some x then some (.next a)
        else c.pprev x := by
  simp [link, next_eq_get, eq_comm]

theorem get_unlink {c : Chains ι α} {a : α} {p : ChainSlot ι α} (hp : c.pprev a = some p)
    {q : ChainSlot ι α} (hq : q ≠ .next a) :
    (c.unlink a).get q = if q = p then c.next a else c.get q := by
  have hget (c : Chains ι α) (f : α → Option (ChainSlot ι α)) :
      ({ c with pprev := f } : Chains ι α).get q = c.get q := by cases q <;> rfl
  simp [unlink, hp, hget, hq]

theorem pprev_unlink {c : Chains ι α} {a x : α} {p : ChainSlot ι α} (hp : c.pprev a = some p)
    (hne : p ≠ .next a) (hx : x ≠ a) :
    (c.unlink a).pprev x = if c.next a = some x then some p else c.pprev x := by
  have hnext : (c.set (c.next a) p).next a = c.next a := by
    rw [next_eq_get, get_set, if_neg hne.symm]
    rfl
  simp [unlink, hp, hx, hnext]

end Chains

open Chains

/-! ## Chains as lists -/

/-- From the pointer `p` on, the entries of `l` follow one another, and the last one is the end. -/
def Seg (c : Chains ι α) : ChainSlot ι α → List α → Prop
  | p, [] => c.get p = none
  | p, a :: l => c.get p = some a ∧ c.pprev a = some p ∧ Seg c (.next a) l

/-- The pointers `c` form the chains `b`, and no entry is in two places. -/
structure Chained (c : Chains ι α) (b : ι → List α) : Prop where
  seg : ∀ i, Seg c (.head i) (b i)
  nodup : ∀ i, (b i).Nodup
  disjoint : ∀ {i j a}, a ∈ b i → a ∈ b j → i = j

variable {c c' : Chains ι α} {b : ι → List α} {p : ChainSlot ι α} {l l₁ l₂ : List α} {a : α}

theorem Chained.empty : Chained (Chains.empty : Chains ι α) fun _ => [] :=
  { seg := fun _ => rfl
    nodup := fun _ => List.nodup_nil
    disjoint := fun h => absurd h List.not_mem_nil }

/-- A segment depends on its first pointer and on the pointers of its entries only. -/
theorem Seg.congr (h : Seg c p l) (hp : c'.get p = c.get p)
    (hl : ∀ a ∈ l, c'.get (.next a) = c.get (.next a) ∧ c'.pprev a = c.pprev a) : Seg c' p l := by
  induction l generalizing p with
  | nil => exact hp.trans h
  | cons a l ih =>
    obtain ⟨hget, hpprev, htail⟩ := h
    rw [List.forall_mem_cons] at hl
    exact ⟨hp.trans hget, hl.1.2.trans hpprev, ih htail hl.1.1 hl.2⟩

/-- A segment is determined by its first pointer. -/
theorem Seg.unique (h₁ : Seg c p l₁) (h₂ : Seg c p l₂) : l₁ = l₂ := by
  induction l₁ generalizing p l₂ with
  | nil =>
    cases l₂ with
    | nil => rfl
    | cons a l₂ => exact absurd (h₁.symm.trans h₂.1) nofun
  | cons a l₁ ih =>
    cases l₂ with
    | nil => exact absurd (h₁.1.symm.trans h₂) nofun
    | cons a' l₂ =>
      obtain rfl := Option.some.inj (h₁.1.symm.trans h₂.1)
      rw [ih h₁.2.2 h₂.2.2]

/-- The pointer to an entry is the first one or the one of an entry before it. -/
theorem Seg.pprev_eq (h : Seg c p (l₁ ++ a :: l₂)) :
    (l₁ = [] ∧ c.pprev a = some p) ∨ ∃ x ∈ l₁, c.pprev a = some (.next x) := by
  induction l₁ generalizing p with
  | nil => exact Or.inl ⟨rfl, h.2.1⟩
  | cons y l₁ ih =>
    refine Or.inr ?_
    obtain ⟨rfl, hy⟩ | ⟨x, hx, hpprev⟩ := ih h.2.2
    · exact ⟨y, List.mem_cons_self, hy⟩
    · exact ⟨x, List.mem_cons_of_mem y hx, hpprev⟩

theorem Seg.next_eq (h : Seg c p (l₁ ++ a :: l₂)) : c.next a = l₂.head? := by
  induction l₁ generalizing p with
  | nil =>
    cases l₂ with
    | nil => exact h.2.2
    | cons x l₂ => exact h.2.2.1
  | cons y l₁ ih => exact ih h.2.2

/-- A walk finds the first entry of the chain that satisfies `f`. -/
theorem Seg.walk_eq (h : Seg c p l) (f : α → Bool) {n : ℕ} (hn : l.length ≤ n) :
    c.walk f n (c.get p) = l.find? f := by
  induction l generalizing p n with
  | nil =>
    rw [show c.get p = none from h]
    cases n <;> rfl
  | cons a l ih =>
    obtain ⟨hget, -, htail⟩ := h
    cases n with
    | zero => exact absurd hn (by simp)
    | succ n =>
      rw [hget, walk, List.find?_cons]
      cases f a with
      | true => rfl
      | false => exact ih htail (Nat.le_of_succ_le_succ hn)

theorem Chained.walk_eq (h : Chained c b) (i : ι) (f : α → Bool) {n : ℕ}
    (hn : (b i).length ≤ n) : c.walk f n (c.head i) = (b i).find? f :=
  (h.seg i).walk_eq f hn

variable [DecidableEq ι] [DecidableEq α]

/-- Linking puts an entry in front of its chain. -/
theorem Chained.link (h : Chained c b) (ha : ∀ i, a ∉ b i) (i : ι) :
    Chained (c.link a i) (Function.update b i (a :: b i)) := by
  have hne {j : ι} {x : α} (hx : x ∈ b j) : x ≠ a := fun hxa => ha j (hxa ▸ hx)
  constructor
  · intro j
    by_cases hji : j = i
    · subst hji
      rw [Function.update_self]
      refine ⟨by simp [get_link], by simp [pprev_link], ?_⟩
      -- the old first entry, if any, gets a new pointer to it
      have hseg := h.seg j
      have hnodup := h.nodup j
      cases hb : b j with
      | nil =>
        rw [hb] at hseg
        exact (by simp [get_link, head_eq_get] : _ = c.get (.head j)).trans hseg
      | cons x l =>
        rw [hb] at hseg hnodup
        have hhead : c.head j = some x := hseg.1
        have hxa : x ≠ a := hne (by rw [hb]; exact List.mem_cons_self)
        refine ⟨by simp [get_link, hhead], by simp [pprev_link, hhead, hxa], ?_⟩
        refine hseg.2.2.congr (by simp [get_link, hxa]) fun y hy => ?_
        have hya : y ≠ a := hne (by rw [hb]; exact List.mem_cons_of_mem x hy)
        have hyx : x ≠ y := fun hxy => (List.nodup_cons.mp hnodup).1 (hxy ▸ hy)
        exact ⟨by simp [get_link, hya], by simp [pprev_link, hhead, hya, hyx]⟩
    · rw [Function.update_of_ne hji]
      refine (h.seg j).congr (by simp [get_link, hji]) fun y hy => ?_
      refine ⟨by simp [get_link, hne hy], ?_⟩
      have hhead : c.head i ≠ some y := fun hy' => by
        have hseg := h.seg i
        cases hb : b i with
        | nil =>
          rw [hb] at hseg
          exact absurd (hseg.symm.trans hy') nofun
        | cons x l =>
          rw [hb] at hseg
          obtain rfl := Option.some.inj (hseg.1.symm.trans hy')
          exact hji (h.disjoint hy (hb ▸ List.mem_cons_self))
      simp [pprev_link, hne hy, hhead]
  · intro j
    by_cases hji : j = i
    · subst hji
      rw [Function.update_self]
      exact List.nodup_cons.mpr ⟨ha j, h.nodup j⟩
    · rw [Function.update_of_ne hji]
      exact h.nodup j
  · intro j k x hj hk
    have hmem {m : ι} (hm : x ∈ Function.update b i (a :: b i) m) : (x = a ∧ m = i) ∨ x ∈ b m := by
      by_cases hmi : m = i
      · subst hmi
        rw [Function.update_self] at hm
        obtain rfl | hx := List.mem_cons.mp hm
        · exact Or.inl ⟨rfl, rfl⟩
        · exact Or.inr hx
      · rw [Function.update_of_ne hmi] at hm
        exact Or.inr hm
    obtain ⟨hxa, rfl⟩ | hxj := hmem hj <;> obtain ⟨hxa', rfl⟩ | hxk := hmem hk
    · rfl
    · exact absurd hxa (hne hxk)
    · exact absurd hxa' (hne hxj)
    · exact h.disjoint hxj hxk

/-- An entry is taken out of the middle of a segment. -/
theorem Seg.unlink (h : Seg c p (l₁ ++ a :: l₂)) (hnodup : (l₁ ++ a :: l₂).Nodup)
    (hp : ∀ x ∈ l₁ ++ a :: l₂, p ≠ .next x) : Seg (c.unlink a) p (l₁ ++ l₂) := by
  have hsep := List.nodup_append.mp hnodup
  have hal₂ : a ∉ l₂ := (List.nodup_cons.mp hsep.2.1).1
  have hal₁ : ∀ x ∈ l₁, x ≠ a := fun x hx => hsep.2.2 x hx a List.mem_cons_self
  obtain ⟨q, hq, hqne⟩ : ∃ q, c.pprev a = some q ∧ ∀ x ∈ a :: l₂, q ≠ .next x := by
    obtain ⟨-, hpprev⟩ | ⟨x, hx, hpprev⟩ := h.pprev_eq
    · exact ⟨p, hpprev, fun y hy => hp y (List.mem_append_right l₁ hy)⟩
    · refine ⟨.next x, hpprev, fun y hy hxy => ?_⟩
      exact hsep.2.2 x hx y hy (ChainSlot.next.inj hxy)
  have hqa : q ≠ .next a := hqne a List.mem_cons_self
  -- behind `a` nothing changes but the back pointer of the first entry
  have hbehind (p' : ChainSlot ι α) (hp' : (c.unlink a).get p' = c.next a) (hp'q : p' = q)
      (htail : Seg c (.next a) l₂) : Seg (c.unlink a) p' l₂ := by
    cases l₂ with
    | nil => exact hp'.trans htail
    | cons x l =>
      obtain ⟨hget, -, htail⟩ := htail
      have hxl := (List.nodup_cons.mp (List.nodup_cons.mp hsep.2.1).2).1
      have hxa : x ≠ a := fun hxa => hal₂ (hxa ▸ List.mem_cons_self)
      refine ⟨hp'.trans hget, ?_, htail.congr ?_ fun y hy => ?_⟩
      · rw [pprev_unlink hq hqa hxa, next_eq_get, if_pos hget, hp'q]
      · rw [get_unlink hq (by simpa using hxa)]
        exact if_neg (hqne x (by simp)).symm
      · have hya : y ≠ a := fun hya => hal₂ (hya ▸ List.mem_cons_of_mem x hy)
        have hyx : c.next a ≠ some y := fun hy' => by
          obtain rfl := Option.some.inj (hget.symm.trans hy')
          exact hxl hy
        rw [get_unlink hq (by simpa using hya), pprev_unlink hq hqa hya, if_neg hyx]
        exact ⟨if_neg (hqne y (by simp [hy])).symm, rfl⟩
  -- in front of `a` the induction goes along the pointers
  induction l₁ generalizing p with
  | nil =>
    obtain rfl := Option.some.inj (h.2.1.symm.trans hq)
    refine hbehind p ?_ rfl h.2.2
    rw [get_unlink hq hqa, if_pos rfl]
  | cons y l₁ ih =>
    obtain ⟨hget, hpprev, htail⟩ := h
    have hnodup' := List.nodup_cons.mp hnodup
    have hya : y ≠ a := hal₁ y List.mem_cons_self
    have hpq : p ≠ q := by
      rintro rfl
      obtain ⟨-, hpprev⟩ | ⟨x, hx, hpprev⟩ := htail.pprev_eq
      · exact hp y List.mem_cons_self (Option.some.inj (hq.symm.trans hpprev))
      · refine hp x ?_ (Option.some.inj (hq.symm.trans hpprev))
        exact List.mem_cons_of_mem y (List.mem_append_left _ hx)
    refine ⟨?_, ?_, ?_⟩
    · rw [get_unlink hq (hp a (by simp)), if_neg hpq]
      exact hget
    · rw [pprev_unlink hq hqa hya, if_neg, hpprev]
      intro hy
      rw [htail.next_eq] at hy
      refine hnodup'.1 (List.mem_append_right l₁ (List.mem_cons_of_mem a ?_))
      exact List.mem_of_mem_head? hy
    · refine ih htail hnodup'.2 (fun x hx hyx => ?_) (List.nodup_append.mp hnodup'.2)
        fun x hx => hal₁ x (List.mem_cons_of_mem y hx)
      exact hnodup'.1 (ChainSlot.next.inj hyx ▸ hx)

/-- Unlinking deletes an entry from the chain it is in. -/
theorem Chained.unlink (h : Chained c b) {i : ι} (ha : a ∈ b i) :
    Chained (c.unlink a) (Function.update b i ((b i).erase a)) := by
  obtain ⟨l₁, l₂, hb⟩ := List.append_of_mem ha
  have hseg := h.seg i
  have hnodup := h.nodup i
  rw [hb] at hseg hnodup
  have hal₁ : a ∉ l₁ := fun hx =>
    (List.nodup_append.mp hnodup).2.2 a hx a List.mem_cons_self rfl
  have herase : (b i).erase a = l₁ ++ l₂ := by
    rw [hb, List.erase_append_right _ hal₁, List.erase_cons_head]
  -- the pointer to `a` and the entry behind it are in bucket `i`
  obtain ⟨q, hq, hqi⟩ : ∃ q, c.pprev a = some q ∧
      (q = .head i ∨ ∃ x ∈ l₁, q = .next x) := by
    obtain ⟨-, hpprev⟩ | ⟨x, hx, hpprev⟩ := hseg.pprev_eq
    · exact ⟨.head i, hpprev, Or.inl rfl⟩
    · exact ⟨.next x, hpprev, Or.inr ⟨x, hx, rfl⟩⟩
  have hqa : q ≠ .next a := by
    rintro rfl
    obtain hq | ⟨x, hx, hq⟩ := hqi
    · exact nomatch hq
    · exact hal₁ (ChainSlot.next.inj hq ▸ hx)
  rw [herase]
  constructor
  · intro j
    by_cases hji : j = i
    · subst hji
      rw [Function.update_self]
      exact hseg.unlink hnodup fun _ _ => nofun
    · rw [Function.update_of_ne hji]
      have hout {x : α} (hx : x ∈ b j) : x ∉ b i := fun hx' => hji (h.disjoint hx hx')
      refine (h.seg j).congr ?_ fun y hy => ?_
      · rw [get_unlink hq (by simp), if_neg]
        rintro rfl
        obtain hq | ⟨x, hx, hq⟩ := hqi
        · exact hji (ChainSlot.head.inj hq)
        · exact nomatch hq
      · have hya : y ≠ a := fun hya => hout hy (hya ▸ ha)
        rw [get_unlink hq (by simpa using hya), pprev_unlink hq hqa hya, if_neg, if_neg]
        · exact ⟨rfl, rfl⟩
        · intro hy'
          rw [hseg.next_eq] at hy'
          refine hout hy ?_
          rw [hb]
          exact List.mem_append_right l₁ (List.mem_cons_of_mem a (List.mem_of_mem_head? hy'))
        · rintro rfl
          obtain hq | ⟨x, hx, hq⟩ := hqi
          · exact nomatch hq
          · refine hout hy ?_
            rw [hb, ChainSlot.next.inj hq]
            exact List.mem_append_left _ hx
  · intro j
    by_cases hji : j = i
    · subst hji
      rw [Function.update_self, ← herase]
      exact (h.nodup j).erase a
    · rw [Function.update_of_ne hji]
      exact h.nodup j
  · intro j k x hj hk
    have hmem {m : ι} (hm : x ∈ Function.update b i (l₁ ++ l₂) m) : x ∈ b m := by
      by_cases hmi : m = i
      · subst hmi
        rw [Function.update_self, ← herase] at hm
        exact List.mem_of_mem_erase hm
      · rwa [Function.update_of_ne hmi] at hm
    exact h.disjoint (hmem hj) (hmem hk)

end Rtl88x2cu
