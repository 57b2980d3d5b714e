import Rtl88x2cu.Lib.KeyStream

/-!
# Modes of block ciphers

A block is a vector of `n` bytes. A counter mode is a sequence of states, each of which gives a
block; the blocks in a row are a key stream (`crypt_eq_encrypt`), so a counter mode inherits what is
known of key streams: it keeps lengths and undoes itself.

A chaining mode folds the blocks of the data into a state. `blocks` cuts data into blocks, the last
one filled with zeros.
-/

namespace Rtl88x2cu.BlockMode

open Bytes

variable {n : ℕ} {σ : Type*}

/-- A block of bytes. -/
abbrev Block (n : ℕ) := Vector Byte n

/-- The first `n` bytes, with zeros for the missing ones. -/
def ofBytes (n : ℕ) (l : List Byte) : Block n := Vector.ofFn fun i => l.getD i 0

/-- The bytes of two blocks, added. -/
def xorBlock (a b : Block n) : Block n := Vector.ofFn fun i => a.get i ^^^ b.get i

/-- The bytes of `l`, added to as many bytes of the block. -/
def mask (l : List Byte) (b : Block n) : List Byte := List.zipWith (· ^^^ ·) l b.toList

/-! ## Blocks -/

theorem getElem_ofBytes (l : List Byte) {i : ℕ} (h : i < n) : (ofBytes n l)[i] = l.getD i 0 := by
  rw [ofBytes, Vector.getElem_ofFn]

theorem getElem_xorBlock (a b : Block n) {i : ℕ} (h : i < n) : (xorBlock a b)[i] = a[i] ^^^ b[i] := by
  rw [xorBlock, Vector.getElem_ofFn]
  rfl

/-- The bytes of a block are read back, whatever is behind them. -/
@[simp]
theorem ofBytes_toList_append (b : Block n) (l : List Byte) : ofBytes n (b.toList ++ l) = b := by
  ext i hi : 1
  have hlen : i < b.toList.length := by rwa [Vector.length_toList]
  rw [getElem_ofBytes _ hi, List.getD_eq_getElem?_getD, List.getElem?_append_left hlen,
    List.getElem?_eq_getElem hlen, Option.getD_some, Vector.getElem_toList]

@[simp]
theorem ofBytes_toList (b : Block n) : ofBytes n b.toList = b := by
  have h := ofBytes_toList_append b []
  rwa [List.append_nil] at h

/-- Bytes that fill a block are the bytes of that block. -/
theorem toList_ofBytes {l : List Byte} (h : l.length = n) : (ofBytes n l).toList = l := by
  apply List.ext_getElem
  · rw [Vector.length_toList, h]
  · intro i hi hi'
    rw [Vector.getElem_toList, getElem_ofBytes _ (h ▸ hi'), List.getD_eq_getElem?_getD,
      List.getElem?_eq_getElem hi', Option.getD_some]

theorem length_mask {l : List Byte} (b : Block n) (h : l.length ≤ n) :
    (mask l b).length = l.length := by
  rw [mask, List.length_zipWith, Vector.length_toList, Nat.min_eq_left h]

theorem xorBlock_comm (a b : Block n) : xorBlock a b = xorBlock b a := by
  ext i hi : 1
  rw [getElem_xorBlock, getElem_xorBlock, BitVec.xor_comm]

theorem xorBlock_assoc (a b c : Block n) :
    xorBlock (xorBlock a b) c = xorBlock a (xorBlock b c) := by
  ext i hi : 1
  simp only [getElem_xorBlock, BitVec.xor_assoc]

@[simp]
theorem xorBlock_xorBlock_cancel (a b : Block n) : xorBlock (xorBlock a b) b = a := by
  ext i hi : 1
  rw [getElem_xorBlock, getElem_xorBlock, BitVec.xor_assoc, BitVec.xor_self, BitVec.xor_zero]

theorem xorBlock_left_injective (b : Block n) : Function.Injective fun a => xorBlock a b :=
  Function.LeftInverse.injective (g := fun a => xorBlock a b) fun a => xorBlock_xorBlock_cancel a b

/-- A full block of data is masked by the sum of the blocks. -/
theorem mask_toList (a b : Block n) : mask a.toList b = (xorBlock a b).toList := by
  apply List.ext_getElem
  · rw [length_mask b (Vector.length_toList ▸ Nat.le_refl n), Vector.length_toList,
      Vector.length_toList]
  · intro i hi hi'
    rw [Vector.length_toList] at hi'
    simp only [mask, List.getElem_zipWith, Vector.getElem_toList, getElem_xorBlock a b hi']

/-! ## Counter modes -/

section Counter

variable (next : σ → σ) (out : σ → Block n)

/-- `k` full blocks of data, and a last one that may be shorter. -/
def crypt : ℕ → σ → List Byte → List Byte
  | 0, s, l => mask l (out s)
  | k + 1, s, l => mask (l.take n) (out s) ++ crypt k (next s) (l.drop n)

/-- The blocks as a stream of bytes; the second component of the state is a position in the
block. -/
def bytes (p : σ × ℕ) : Byte × σ × ℕ :=
  ((out p.1).toList.getD p.2 0, if p.2 + 1 < n then (p.1, p.2 + 1) else (next p.1, 0))

/-- Data that does not go beyond the block it begins in. -/
theorem encrypt_block (s : σ) (l : List Byte) {j : ℕ} (hj : j < n) (h : j + l.length ≤ n) :
    KeyStream.encrypt (bytes next out) (s, j) l =
      (List.zipWith (· ^^^ ·) l ((out s).toList.drop j),
        if j + l.length < n then (s, j + l.length) else (next s, 0)) := by
  induction l generalizing j with
  | nil => rw [KeyStream.encrypt, List.length_nil, Nat.add_zero, if_pos hj, List.zipWith_nil_left]
  | cons b l ih =>
    rw [List.length_cons] at h ⊢
    have hlen : j < (out s).toList.length := by rwa [Vector.length_toList]
    have hbyte : (out s).toList.getD j 0 = (out s).toList[j] := by
      rw [List.getD_eq_getElem?_getD, List.getElem?_eq_getElem hlen, Option.getD_some]
    rw [KeyStream.encrypt, List.drop_eq_getElem_cons hlen, List.zipWith_cons_cons]
    by_cases hnext : j + 1 < n
    · have hstate : bytes next out (s, j) = ((out s).toList[j], s, j + 1) := by
        rw [bytes, if_pos hnext, hbyte]
      rw [hstate, ih hnext (by omega), Nat.add_assoc, Nat.add_comm 1]
    · -- the byte is the last one of the block, and of the data
      have hstate : bytes next out (s, j) = ((out s).toList[j], next s, 0) := by
        rw [bytes, if_neg hnext, hbyte]
      obtain rfl : l = [] := List.eq_nil_of_length_eq_zero (by omega)
      rw [hstate, List.length_nil, Nat.zero_add, if_neg hnext, KeyStream.encrypt,
        List.zipWith_nil_left]

/-- A counter mode is encryption with a key stream. -/
theorem crypt_eq_encrypt (hn : 0 < n) (k : ℕ) (s : σ) (l : List Byte)
    (h : k * n ≤ l.length) (h' : l.length < (k + 1) * n) :
    crypt next out k s l = (KeyStream.encrypt (bytes next out) (s, 0) l).1 := by
  induction k generalizing s l with
  | zero =>
    rw [crypt, mask, encrypt_block next out s l hn (by omega), List.drop_zero]
  | succ k ih =>
    rw [Nat.succ_mul] at h h'
    have htake : (l.take n).length = n := by
      rw [List.length_take]
      omega
    rw [crypt, ih (next s) (l.drop n) (by rw [List.length_drop]; omega)
      (by rw [List.length_drop]; omega)]
    conv_rhs => rw [← List.take_append_drop n l, KeyStream.encrypt_append,
      encrypt_block next out s (l.take n) hn (by omega), if_neg (by omega), List.drop_zero]
    rfl

/-- The number of full blocks is that of the data. -/
theorem crypt_div (hn : 0 < n) (s : σ) (l : List Byte) :
    crypt next out (l.length / n) s l = (KeyStream.encrypt (bytes next out) (s, 0) l).1 := by
  apply crypt_eq_encrypt next out hn
  · exact Nat.div_mul_le_self l.length n
  · exact Nat.lt_mul_of_div_lt (Nat.lt_succ_self _) hn

theorem length_crypt_div (hn : 0 < n) (s : σ) (l : List Byte) :
    (crypt next out (l.length / n) s l).length = l.length := by
  rw [crypt_div next out hn, KeyStream.length_encrypt]

/-- A counter mode undoes itself. -/
theorem crypt_crypt (hn : 0 < n) (s : σ) (l l' : List Byte) :
    crypt next out (l.length / n) s l = l' ↔ crypt next out (l'.length / n) s l' = l := by
  rw [crypt_div next out hn, crypt_div next out hn]
  constructor
  · rintro rfl
    exact KeyStream.encrypt_encrypt _ _ l
  · rintro rfl
    exact KeyStream.encrypt_encrypt _ _ l'

end Counter

/-! ## Blocks of data -/

/-- `k` full blocks, and a last one with zeros behind the data unless there is no data left. -/
def blocksFrom (n : ℕ) : ℕ → List Byte → List (Block n)
  | 0, l => if l = [] then [] else [ofBytes n l]
  | k + 1, l => ofBytes n l :: blocksFrom n k (l.drop n)

/-- The data as blocks. -/
def blocks (n : ℕ) (l : List Byte) : List (Block n) := blocksFrom n (l.length / n) l

@[simp]
theorem blocks_nil (n : ℕ) : blocks n [] = [] := by
  rw [blocks, List.length_nil, Nat.zero_div, blocksFrom, if_pos rfl]

/-- One full block in front. -/
theorem blocks_toList_append (hn : 0 < n) (b : Block n) (l : List Byte) :
    blocks n (b.toList ++ l) = b :: blocks n l := by
  have hlen : (b.toList ++ l).length / n = l.length / n + 1 := by
    rw [List.length_append, Vector.length_toList, Nat.add_div_left _ hn]
  rw [blocks, hlen, blocksFrom, ofBytes_toList_append, blocks]
  congr 2
  exact List.drop_left' (Vector.length_toList)

/-- Data that fills a block is that block. -/
theorem exists_block {l : List Byte} (h : n ≤ l.length) :
    ∃ b : Block n, l = b.toList ++ l.drop n := by
  refine ⟨ofBytes n (l.take n), ?_⟩
  rw [toList_ofBytes (by rw [List.length_take, Nat.min_eq_left h]), List.take_append_drop]

/-- Data begins with a block, and goes on behind it. -/
theorem blocks_of_ne_nil (hn : 0 < n) {l : List Byte} (hne : l ≠ []) :
    blocks n l = ofBytes n l :: blocks n (l.drop n) := by
  by_cases hshort : l.length < n
  · rw [List.drop_of_length_le (Nat.le_of_lt hshort), blocks_nil, blocks, Nat.div_eq_of_lt hshort,
      blocksFrom, if_neg hne]
  · obtain ⟨b, hb⟩ := exists_block (Nat.not_lt.mp hshort)
    conv_lhs => rw [hb, blocks_toList_append hn]
    conv_rhs => rw [hb, ofBytes_toList_append, ← hb]

/-- The zeros behind the data are those that fill the last block. -/
theorem ofBytes_append_zeros (l : List Byte) (k : ℕ) :
    ofBytes n (l ++ List.replicate k 0) = ofBytes n l := by
  ext i hi : 1
  rw [getElem_ofBytes _ hi, getElem_ofBytes _ hi, List.getD_eq_getElem?_getD,
    List.getD_eq_getElem?_getD]
  by_cases h : i < l.length
  · rw [List.getElem?_append_left h]
  · rw [List.getElem?_append_right (Nat.not_lt.mp h), List.getElem?_replicate,
      List.getElem?_eq_none (Nat.not_lt.mp h)]
    split <;> rfl

/-- The number of blocks is given by the length. -/
theorem length_blocks (hn : 0 < n) {l l' : List Byte} (hlen : l.length = l'.length) :
    (blocks n l).length = (blocks n l').length := by
  induction hk : l.length using Nat.strongRecOn generalizing l l' with
  | _ k ih =>
    by_cases hne : l = []
    · rw [hne, List.length_nil] at hlen
      rw [hne, List.eq_nil_of_length_eq_zero hlen.symm]
    · have hpos : 0 < l.length := List.length_pos_iff.mpr hne
      have hne' : l' ≠ [] := List.ne_nil_of_length_pos (hlen ▸ hpos)
      rw [blocks_of_ne_nil hn hne, blocks_of_ne_nil hn hne', List.length_cons, List.length_cons]
      congr 1
      apply ih (l.drop n).length _ _ rfl
      · rw [List.length_drop]
        omega
      · rw [List.length_drop, List.length_drop, hlen]

/-- A byte of the first block. -/
theorem getD_eq_of_ofBytes_eq {l l' : List Byte} (h : ofBytes n l = ofBytes n l') {i : ℕ}
    (hi : i < n) : l.getD i 0 = l'.getD i 0 := by
  rw [← getElem_ofBytes l hi, ← getElem_ofBytes l' hi, h]

/-- Data of a known length can be read off its blocks. -/
theorem blocks_injective (hn : 0 < n) {l l' : List Byte} (hlen : l.length = l'.length)
    (h : blocks n l = blocks n l') : l = l' := by
  induction hk : l.length using Nat.strongRecOn generalizing l l' with
  | _ k ih =>
    by_cases hne : l = []
    · rw [hne, List.length_nil] at hlen
      rw [hne, List.eq_nil_of_length_eq_zero hlen.symm]
    · have hpos : 0 < l.length := List.length_pos_iff.mpr hne
      have hne' : l' ≠ [] := List.ne_nil_of_length_pos (hlen ▸ hpos)
      rw [blocks_of_ne_nil hn hne, blocks_of_ne_nil hn hne', List.cons.injEq] at h
      have hrest : l.drop n = l'.drop n := by
        apply ih (l.drop n).length _ _ h.2 rfl
        · rw [List.length_drop]
          omega
        · rw [List.length_drop, List.length_drop, hlen]
      apply List.ext_getElem hlen
      intro i hi hi'
      by_cases hin : i < n
      · have hbyte := getD_eq_of_ofBytes_eq h.1 hin
        rwa [List.getD_eq_getElem?_getD, List.getD_eq_getElem?_getD, List.getElem?_eq_getElem hi,
          List.getElem?_eq_getElem hi', Option.getD_some, Option.getD_some] at hbyte
      · obtain ⟨j, rfl⟩ := Nat.exists_eq_add_of_le (Nat.not_lt.mp hin)
        have hbyte := congrArg (fun l : List Byte => l[j]?) hrest
        rwa [List.getElem?_drop, List.getElem?_drop, List.getElem?_eq_getElem hi,
          List.getElem?_eq_getElem hi', Option.some.injEq] at hbyte

/-! ## Authentication with two subkeys -/

section Cmac

variable (aes : Block n → Block n) (k1 k2 : Block n)

/-- The last block: a full one is masked with `k1`, a shorter one is filled up and masked with
`k2`. -/
def lastBlock (l : List Byte) : Block n :=
  if l.length = n then xorBlock k1 (ofBytes n l) else xorBlock k2 (ofBytes n (l ++ [0x80]))

/-- `m` full blocks, and the last one. -/
def cmacFrom : ℕ → Block n → List Byte → Block n
  | 0, x, l => aes (xorBlock x (lastBlock k1 k2 l))
  | m + 1, x, l => cmacFrom m (aes (xorBlock x (ofBytes n l))) (l.drop n)

/-- The last block is not empty, unless there is no data. -/
def cmac (l : List Byte) : Block n := cmacFrom aes k1 k2 ((l.length - 1) / n) (ofBytes n []) l

/-- One full block in front. -/
theorem cmacFrom_succ_append {b : List Byte} (hb : b.length = n) (m : ℕ) (x : Block n)
    (l : List Byte) :
    cmacFrom aes k1 k2 (m + 1) x (b ++ l) =
      cmacFrom aes k1 k2 m (aes (xorBlock x (ofBytes n b))) l := by
  have hblock : ofBytes n (b ++ l) = ofBytes n b := by
    conv_lhs => rw [← toList_ofBytes hb, ofBytes_toList_append]
  rw [cmacFrom, hblock, List.drop_left' hb]

end Cmac

end Rtl88x2cu.BlockMode
