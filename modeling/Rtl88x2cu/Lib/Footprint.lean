import Rtl88x2cu.Lib.Bytes

/-!
# Memories and what is read of them

A memory gives a byte for every offset, so that a program can be run on what stands behind a buffer,
too. What it reads is a list of extents, and `Inside` says that all of them are in front of an
offset.
-/

namespace Rtl88x2cu.Footprint

open Bytes

abbrev Mem := ℕ → Byte

/-- The `n` bytes from `p` on. -/
def bytesAt (mem : Mem) (p n : ℕ) : List Byte := (List.range n).map fun i => mem (p + i)

/-- The `len` bytes from `off` on. -/
structure Extent where
  off : ℕ
  len : ℕ
  deriving DecidableEq, Repr

/-- All extents are in front of `n`. -/
def Inside (n : ℕ) (es : List Extent) : Prop := ∀ e ∈ es, e.off + e.len ≤ n

instance (n : ℕ) (es : List Extent) : Decidable (Inside n es) :=
  inferInstanceAs (Decidable (∀ e ∈ es, e.off + e.len ≤ n))

section
variable {n : ℕ} {es es' : List Extent} {e : Extent}

@[simp]
theorem inside_nil : Inside n [] := fun _ he => nomatch he

@[simp]
theorem inside_cons : Inside n (e :: es) ↔ e.off + e.len ≤ n ∧ Inside n es :=
  List.forall_mem_cons

@[simp]
theorem inside_append : Inside n (es ++ es') ↔ Inside n es ∧ Inside n es' :=
  List.forall_mem_append

end

section
variable {mem : Mem} {p : ℕ} {a b : List Byte}

@[simp]
theorem length_bytesAt (mem : Mem) (p n : ℕ) : (bytesAt mem p n).length = n := by
  rw [bytesAt, List.length_map, List.length_range]

theorem bytesAt_add (mem : Mem) (p m n : ℕ) :
    bytesAt mem p (m + n) = bytesAt mem p m ++ bytesAt mem (p + m) n := by
  unfold bytesAt
  rw [List.range_add, List.map_append, List.map_map]
  congr 2
  funext i
  exact congrArg mem (Nat.add_assoc p m i).symm

/-- Two parts are in a memory one behind the other. -/
theorem bytesAt_append (h : bytesAt mem p (a ++ b).length = a ++ b) :
    bytesAt mem p a.length = a ∧ bytesAt mem (p + a.length) b.length = b := by
  rw [List.length_append, bytesAt_add] at h
  exact List.append_inj h (length_bytesAt mem p a.length)

end

end Rtl88x2cu.Footprint
