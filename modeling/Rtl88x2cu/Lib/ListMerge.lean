import Mathlib.Algebra.Order.Ring.Nat
import Mathlib.Tactic.Common

/-!
# Merging two lists by their keys

`merge f g as bs` goes through two lists of different types side by side: where the keys of the
heads agree it takes both, else the head with the smaller key. What it takes is marked with where it
comes from. The definition recurses on the first list, and inside on the second one, so that it
evaluates.

* `mem_key_merge`: the keys are those of the two lists, whether these are sorted or not.
* `exists_left_of_mem_merge`: what has no key of the second list comes from the first one only.
* `pairwise_merge`: the keys increase if those of the two lists do.
-/

namespace Rtl88x2cu.ListMerge

/-- An element of a merged list. -/
inductive Merged (α β : Type*) where
  | both (a : α) (b : β)
  | left (a : α)
  | right (b : β)
  deriving DecidableEq, Repr

namespace Merged

variable {α β γ κ : Type*}

/-- The key of a merged element. -/
def key (f : α → κ) (g : β → κ) : Merged α β → κ
  | both _ b => g b
  | left a => f a
  | right b => g b

def mapRight (h : β → γ) : Merged α β → Merged α γ
  | both a b => both a (h b)
  | left a => left a
  | right b => right (h b)

end Merged

open Merged

variable {α β γ κ : Type*} [LinearOrder κ] (f : α → κ) (g : β → κ)

/-- `a` in front of a list that is merged to `rest` with the empty list, and to `next bs` with
`bs`. -/
def mergeCons (a : α) (rest : List (Merged α β)) (next : List β → List (Merged α β)) :
    List β → List (Merged α β)
  | [] => left a :: rest
  | b :: bs =>
    if f a = g b then both a b :: next bs
    else if f a < g b then left a :: next (b :: bs)
    else right b :: mergeCons a rest next bs

def merge : List α → List β → List (Merged α β)
  | [] => fun bs => bs.map right
  | a :: as => mergeCons f g a (merge as []) (merge as)

variable {f g} {a : α} {b : β} {as : List α} {bs : List β}

@[simp]
theorem merge_nil_left : merge f g [] bs = bs.map right := rfl

@[simp]
theorem merge_nil_right : merge f g as [] = as.map left := by
  induction as with
  | nil => rfl
  | cons a as ih => exact congrArg (left a :: ·) ih

theorem merge_cons_of_eq (h : f a = g b) :
    merge f g (a :: as) (b :: bs) = both a b :: merge f g as bs :=
  if_pos h

theorem merge_cons_of_lt (h : f a < g b) :
    merge f g (a :: as) (b :: bs) = left a :: merge f g as (b :: bs) :=
  (if_neg h.ne).trans (if_pos h)

theorem merge_cons_of_gt (h : g b < f a) :
    merge f g (a :: as) (b :: bs) = right b :: merge f g (a :: as) bs :=
  (if_neg h.ne').trans (if_neg h.not_gt)

/-- The induction along a merge. -/
theorem merge_induction {P : List α → List β → Prop} (f : α → κ) (g : β → κ)
    (hnil : ∀ bs, P [] bs) (hnil' : ∀ as, P as [])
    (heq : ∀ a as b bs, f a = g b → P as bs → P (a :: as) (b :: bs))
    (hlt : ∀ a as b bs, f a < g b → P as (b :: bs) → P (a :: as) (b :: bs))
    (hgt : ∀ a as b bs, g b < f a → P (a :: as) bs → P (a :: as) (b :: bs)) :
    ∀ as bs, P as bs := by
  intro as
  induction as with
  | nil => exact hnil
  | cons a as ih =>
    intro bs
    induction bs with
    | nil => exact hnil' _
    | cons b bs ihb =>
      obtain h | h | h := lt_trichotomy (f a) (g b)
      · exact hlt a as b bs h (ih _)
      · exact heq a as b bs h (ih _)
      · exact hgt a as b bs h ihb

/-- The keys of a merged list are those of the two lists. -/
theorem mem_key_merge {c : κ} :
    c ∈ (merge f g as bs).map (key f g) ↔ c ∈ as.map f ∨ c ∈ bs.map g := by
  induction as, bs using merge_induction f g with
  | hnil bs => simp [key]
  | hnil' as => simp [key]
  | heq a as b bs h ih =>
    rw [merge_cons_of_eq h, List.map_cons, List.mem_cons, ih, List.map_cons, List.map_cons,
      List.mem_cons, List.mem_cons, key, h]
    tauto
  | hlt a as b bs h ih =>
    rw [merge_cons_of_lt h, List.map_cons, List.mem_cons, ih, List.map_cons, List.map_cons,
      List.mem_cons, List.mem_cons, key, or_assoc]
  | hgt a as b bs h ih =>
    rw [merge_cons_of_gt h, List.map_cons, List.mem_cons, ih, List.map_cons, List.map_cons,
      List.mem_cons, List.mem_cons, key]
    tauto

/-- What has no key of the second list comes from the first one only. -/
theorem exists_left_of_mem_merge {m : Merged α β} (hm : m ∈ merge f g as bs)
    (hkey : key f g m ∉ bs.map g) : ∃ a ∈ as, m = left a := by
  induction as, bs using merge_induction f g with
  | hnil bs =>
    obtain ⟨b, hb, rfl⟩ := List.mem_map.mp hm
    exact absurd (List.mem_map_of_mem hb) hkey
  | hnil' as =>
    rw [merge_nil_right] at hm
    obtain ⟨a, ha, rfl⟩ := List.mem_map.mp hm
    exact ⟨a, ha, rfl⟩
  | heq a as b bs h ih =>
    rw [List.map_cons, List.mem_cons, not_or] at hkey
    obtain ⟨hne, hkey⟩ := hkey
    rw [merge_cons_of_eq h, List.mem_cons] at hm
    obtain rfl | hm := hm
    · exact absurd rfl hne
    · obtain ⟨a', ha', rfl⟩ := ih hm hkey
      exact ⟨a', List.mem_cons_of_mem a ha', rfl⟩
  | hlt a as b bs h ih =>
    rw [merge_cons_of_lt h, List.mem_cons] at hm
    obtain rfl | hm := hm
    · exact ⟨a, List.mem_cons_self, rfl⟩
    · obtain ⟨a', ha', rfl⟩ := ih hm hkey
      exact ⟨a', List.mem_cons_of_mem a ha', rfl⟩
  | hgt a as b bs h ih =>
    rw [List.map_cons, List.mem_cons, not_or] at hkey
    obtain ⟨hne, hkey⟩ := hkey
    rw [merge_cons_of_gt h, List.mem_cons] at hm
    obtain rfl | hm := hm
    · exact absurd rfl hne
    · exact ih hm hkey

/-- The merge of two increasing lists is increasing. -/
theorem pairwise_merge (has : (as.map f).Pairwise (· < ·)) (hbs : (bs.map g).Pairwise (· < ·)) :
    ((merge f g as bs).map (key f g)).Pairwise (· < ·) := by
  induction as, bs using merge_induction f g with
  | hnil bs => simpa [key, Function.comp_def] using hbs
  | hnil' as => simpa [key, Function.comp_def] using has
  | heq a as b bs h ih =>
    obtain ⟨ha, has⟩ := List.pairwise_cons.mp has
    obtain ⟨hb, hbs⟩ := List.pairwise_cons.mp hbs
    rw [merge_cons_of_eq h, List.map_cons, List.pairwise_cons]
    refine ⟨fun c hc => ?_, ih has hbs⟩
    obtain hc | hc := mem_key_merge.mp hc
    · exact h.symm.trans_lt (ha c hc)
    · exact hb c hc
  | hlt a as b bs h ih =>
    obtain ⟨ha, has⟩ := List.pairwise_cons.mp has
    obtain ⟨hb, -⟩ := List.pairwise_cons.mp hbs
    rw [merge_cons_of_lt h, List.map_cons, List.pairwise_cons]
    refine ⟨fun c hc => ?_, ih has hbs⟩
    obtain hc | hc := mem_key_merge.mp hc
    · exact ha c hc
    · obtain rfl | hc := List.mem_cons.mp hc
      · exact h
      · exact h.trans (hb c hc)
  | hgt a as b bs h ih =>
    obtain ⟨ha, -⟩ := List.pairwise_cons.mp has
    obtain ⟨hb, hbs⟩ := List.pairwise_cons.mp hbs
    rw [merge_cons_of_gt h, List.map_cons, List.pairwise_cons]
    refine ⟨fun c hc => ?_, ih has hbs⟩
    obtain hc | hc := mem_key_merge.mp hc
    · obtain rfl | hc := List.mem_cons.mp hc
      · exact h
      · exact h.trans (ha c hc)
    · exact hb c hc

/-- Only the keys of the second list matter. -/
theorem merge_map_right (h : β → γ) (g : γ → κ) (as : List α) (bs : List β) :
    merge f g as (bs.map h) = (merge f (g ∘ h) as bs).map (mapRight h) := by
  induction as, bs using merge_induction f (g ∘ h) with
  | hnil bs => simp [mapRight, Function.comp_def]
  | hnil' as => simp [mapRight, Function.comp_def]
  | heq a as b bs hkey ih =>
    rw [List.map_cons, merge_cons_of_eq (g := g) hkey, ih, merge_cons_of_eq hkey]
    rfl
  | hlt a as b bs hkey ih =>
    rw [List.map_cons, merge_cons_of_lt (g := g) hkey, ← List.map_cons, ih, merge_cons_of_lt hkey]
    rfl
  | hgt a as b bs hkey ih =>
    rw [List.map_cons, merge_cons_of_gt (g := g) hkey, ih, merge_cons_of_gt hkey]
    rfl

end Rtl88x2cu.ListMerge
