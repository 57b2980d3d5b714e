import Rtl88x2cu.Lib.Bytes

/-!
# Key streams

A generator gives a byte of the key stream and its next state; encryption adds the key stream to the
data. To encrypt twice from one state is to do nothing, and what is done to a byte of the data is
done to the byte of the encrypted data.
-/

namespace Rtl88x2cu.KeyStream

open Bytes

variable {σ : Type*} (next : σ → Byte × σ)

/-- The encrypted data, and the state behind it. -/
def encrypt : σ → List Byte → List Byte × σ
  | s, [] => ([], s)
  | s, b :: bs => ((b ^^^ (next s).1) :: (encrypt (next s).2 bs).1, (encrypt (next s).2 bs).2)

@[simp]
theorem length_encrypt (s : σ) (l : List Byte) : (encrypt next s l).1.length = l.length := by
  induction l generalizing s with
  | nil => rfl
  | cons b l ih => rw [encrypt, List.length_cons, ih, List.length_cons]

/-- The key stream is carried from the first part to the second one. -/
theorem encrypt_append (s : σ) (l l' : List Byte) :
    encrypt next s (l ++ l') =
      ((encrypt next s l).1 ++ (encrypt next (encrypt next s l).2 l').1,
        (encrypt next (encrypt next s l).2 l').2) := by
  induction l generalizing s with
  | nil => rfl
  | cons b l ih =>
    rw [List.cons_append, encrypt, ih, encrypt]
    rfl

@[simp]
theorem encrypt_encrypt (s : σ) (l : List Byte) :
    (encrypt next s (encrypt next s l).1).1 = l := by
  induction l generalizing s with
  | nil => rfl
  | cons b l ih => rw [encrypt, encrypt, ih, BitVec.xor_assoc, BitVec.xor_self, BitVec.xor_zero]

/-- A byte that is changed by `d` before or after encryption. -/
theorem encrypt_modify (s : σ) (l : List Byte) (i : ℕ) (d : Byte) :
    (encrypt next s (l.modify i (· ^^^ d))).1 = (encrypt next s l).1.modify i (· ^^^ d) := by
  induction l generalizing s i with
  | nil => cases i <;> rfl
  | cons b l ih =>
    cases i with
    | zero =>
      rw [List.modify_zero_cons, encrypt, encrypt, List.modify_zero_cons, BitVec.xor_assoc,
        BitVec.xor_comm d, ← BitVec.xor_assoc]
    | succ i =>
      rw [List.modify_succ_cons, encrypt, encrypt, List.modify_succ_cons, ih]

end Rtl88x2cu.KeyStream
