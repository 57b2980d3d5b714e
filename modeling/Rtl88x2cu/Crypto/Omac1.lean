import Rtl88x2cu.Crypto.AesGcm
import Rtl88x2cu.Lib.Cursor

/-!
# OMAC1

`omac1_aes_vector` (`core/crypto/aes-omac1.c`): the authentication value of a list of elements,
which the function walks through with a pointer. An element is left when its last byte has been
read, and the next one is begun without a look at its length, so an empty element makes it read
outside of the elements.

`omac1AesVector_eq` says when this happens; if it does not, the result is that of the concatenation.
-/

namespace Rtl88x2cu.Crypto

open Bytes BlockMode Polynomial BinaryField

/-! ## Model -/

/-- The loop of `gf_mulx`. Nothing is behind the last byte. -/
def shiftLeftBytes : List Byte → List Byte
  | [] => []
  | b :: bs => ((b <<< 1) ||| (bs.headD 0 >>> 7)) :: shiftLeftBytes bs

/-- `gf_mulx`. -/
def gfMulx (pad : Block 16) : Block 16 :=
  let carry := pad.toList.getD 0 0 &&& 0x80
  let shifted := ofBytes 16 (shiftLeftBytes pad.toList)
  if carry ≠ 0 then xorBlock shifted (ofBytes 16 (List.replicate 15 0 ++ [0x87])) else shifted

section Cipher

variable (aes : Block 16 → Block 16)

/-- The loop over full blocks, with `rem` bytes behind them; the bytes of a block are added to `cbc`
as they are read, and the last block is not encrypted if nothing is behind it. -/
def omac1Blocks (rem : ℕ) : ℕ → Block 16 → Cursor Byte → Option (Block 16 × Cursor Byte)
  | 0, cbc, c => some (cbc, c)
  | m + 1, cbc, c =>
    let left := 16 * (m + 1) + rem
    (c.reads (left == 16) 16).bind fun p =>
      let cbc := xorBlock cbc (ofBytes 16 p.1)
      omac1Blocks rem m (if left > 16 then aes cbc else cbc) p.2

/-- What is done behind the loop. -/
def omac1Last (totalLen left : ℕ) (cbc : Block 16) (c : Cursor Byte) : Option (Block 16) :=
  let pad := gfMulx (aes (ofBytes 16 []))
  if left ≠ 0 ∨ totalLen = 0 then
    (c.reads true left).map fun p =>
      let cbc := xorBlock cbc (ofBytes 16 (p.1 ++ [0x80]))
      aes (xorBlock (gfMulx pad) cbc)
  else some (aes (xorBlock pad cbc))

end Cipher

/-- `omac1_aes_vector`: `none` if it reads outside of the elements, and `some none` if it fails. -/
def omac1AesVector (key : List Byte) (elems : List (List Byte)) : Option (Option (Block 16)) :=
  match aesEncryptInit key with
  | none => some none
  | some ctx =>
    match elems with
    | [] => none
    | addr :: addrs =>
      let totalLen := (elems.map List.length).sum
      let aes := aesEncrypt ctx
      ((omac1Blocks aes (totalLen % 16) (totalLen / 16) (ofBytes 16 []) ⟨addr, addrs⟩).bind fun p =>
        omac1Last aes totalLen (totalLen % 16) p.1 p.2).map some

/-- `omac1_aes_vector` for one element, as `omac1_aes_128` and `omac1_aes_256` call it; see
`omac1AesVector_singleton`. -/
def omac1Aes (key data : List Byte) : Option (Block 16) := (omac1AesVector key [data]).join

/-! ## Subkeys -/

/-- The class of the polynomial whose highest coefficient is the first bit. -/
noncomputable def ofBlockBe (b : Block 16) : AdjoinRoot gcmPoly :=
  toRing gcmPoly (blockBits b).reverse

theorem ofBlockBe_injective : Function.Injective ofBlockBe := by
  intro a b h
  apply blockBits_injective
  apply List.reverse_injective
  apply toRing_injective (monic_modulus degree_gcmTail_lt) _ _ h
  · rw [List.length_reverse, length_blockBits, natDegree_modulus degree_gcmTail_lt]
  · rw [List.length_reverse, length_blockBits, natDegree_modulus degree_gcmTail_lt]

theorem ofBlockBe_xorBlock (a b : Block 16) :
    ofBlockBe (xorBlock a b) = ofBlockBe a + ofBlockBe b := by
  have hlen : (blockBits a).length = (blockBits b).length := by
    rw [length_blockBits, length_blockBits]
  rw [ofBlockBe, toRing, blockBits_xorBlock, List.reverse_zipWith hlen,
    eval_zipWith_xor _ add_self (by rw [List.length_reverse, List.length_reverse, hlen])]
  rfl

/-- The bits of a byte are moved by one, and the first bit of the next byte comes in. -/
theorem msbBits_shiftLeft (b c : Byte) :
    msbBits ((b <<< 1) ||| (c >>> 7)) = (msbBits b).tail ++ [c.getMsbD 0] := by
  apply List.ext_getElem
  · rw [length_msbBits, List.length_append, List.length_tail, length_msbBits]
    rfl
  · intro i hi hi'
    rw [length_msbBits] at hi
    rw [getElem_msbBits, BitVec.getMsbD_or, BitVec.getMsbD_shiftLeft, BitVec.getMsbD_ushiftRight,
      List.getElem_append]
    by_cases h : i < 7
    · rw [dif_pos (by rw [List.length_tail, length_msbBits]; omega), List.getElem_tail,
        getElem_msbBits, decide_eq_true h, Bool.not_true, Bool.false_and, Bool.and_false,
        Bool.or_false]
    · have hi7 : i = 7 := by omega
      subst hi7
      rw [dif_neg (by rw [List.length_tail, length_msbBits]; omega)]
      simp

theorem msbBits_eq_cons (b : Byte) : msbBits b = b.getMsbD 0 :: (msbBits b).tail := rfl

theorem flatMap_msbBits_shiftLeftBytes {l : List Byte} (hl : l ≠ []) :
    (shiftLeftBytes l).flatMap msbBits = (l.flatMap msbBits).tail ++ [false] := by
  induction l with
  | nil => exact absurd rfl hl
  | cons b l ih =>
    rw [shiftLeftBytes, List.flatMap_cons, msbBits_shiftLeft, List.flatMap_cons,
      List.tail_append_of_ne_nil (List.ne_nil_of_length_pos (by rw [length_msbBits]; decide))]
    cases l with
    | nil => simp [shiftLeftBytes]
    | cons c l =>
      rw [ih (List.cons_ne_nil c l), List.headD_cons, List.flatMap_cons]
      conv_rhs => rw [msbBits_eq_cons c]
      conv_lhs => rw [msbBits_eq_cons c]
      simp

/-- The last byte of the reduction. -/
theorem ofBlockBe_reduction :
    ofBlockBe (ofBytes 16 (List.replicate 15 0 ++ [0x87])) = AdjoinRoot.root gcmPoly ^ 128 := by
  have hbits : (blockBits (ofBytes 16 (List.replicate 15 0 ++ [0x87]))).reverse =
      [true, true, true, false, false, false, false, true] ++ List.replicate 120 false := by
    decide +kernel
  rw [ofBlockBe, toRing, hbits, eval_append, eval_replicate_false, root_pow]
  simp only [eval_cons, eval_nil, reduceIte, Bool.false_eq_true]
  ring

theorem length_shiftLeftBytes (l : List Byte) : (shiftLeftBytes l).length = l.length := by
  induction l with
  | nil => rfl
  | cons b l ih => rw [shiftLeftBytes, List.length_cons, ih, List.length_cons]

/-- `gf_mulx` multiplies by `x`. -/
theorem ofBlockBe_gfMulx (b : Block 16) :
    ofBlockBe (gfMulx b) = AdjoinRoot.root gcmPoly * ofBlockBe b := by
  have hne : b.toList ≠ [] := List.ne_nil_of_length_pos (by rw [Vector.length_toList]; decide)
  obtain ⟨x, l, hl⟩ := List.exists_cons_of_ne_nil hne
  have hbits : blockBits b = x.getMsbD 0 :: (blockBits b).tail := by
    rw [blockBits_eq, hl, List.flatMap_cons, msbBits_eq_cons]
    rfl
  have hlen : (blockBits b).tail.length = 127 := by
    rw [List.length_tail, length_blockBits]
  have hvalue : ofBlockBe b = eval (AdjoinRoot.root gcmPoly) (blockBits b).tail.reverse +
      AdjoinRoot.root gcmPoly ^ 127 * if x.getMsbD 0 then 1 else 0 := by
    rw [ofBlockBe, toRing, hbits, List.reverse_cons, List.tail_cons, eval_append, eval_cons,
      eval_nil, mul_zero, add_zero, List.length_reverse, hlen]
  have hshifted : ofBlockBe (ofBytes 16 (shiftLeftBytes b.toList)) =
      AdjoinRoot.root gcmPoly * eval (AdjoinRoot.root gcmPoly) (blockBits b).tail.reverse := by
    rw [ofBlockBe, toRing, blockBits_ofBytes (by
      rw [length_shiftLeftBytes, Vector.length_toList]), flatMap_msbBits_shiftLeftBytes hne,
      ← blockBits_eq, List.reverse_append, List.reverse_singleton, List.singleton_append, eval_cons,
      if_neg (by decide), zero_add]
  have hcarry : b.toList.getD 0 0 &&& 0x80 ≠ 0 ↔ x.getMsbD 0 = true := by
    have hmask : (0x80 : Byte) = BitVec.twoPow 8 7 := by decide
    have hmsb : x.getMsbD 0 = x.getLsbD 7 := rfl
    rw [hl, List.getD_cons_zero, hmask, BitVec.and_twoPow, hmsb]
    cases x.getLsbD 7 <;> decide
  rw [gfMulx, hvalue]
  by_cases hbit : x.getMsbD 0 = true
  · rw [if_pos (hcarry.mpr hbit), if_pos hbit, ofBlockBe_xorBlock, hshifted, ofBlockBe_reduction]
    ring
  · rw [if_neg (mt hcarry.mp hbit), if_neg hbit, hshifted]
    ring

/-! ## Elements -/

section Cipher

variable (aes : Block 16 → Block 16)

/-- All the bytes are read, and authenticated as one text. -/
theorem omac1Blocks_last {rem totalLen m : ℕ} (hrem : rem < 16)
    (h : totalLen = 0 ↔ 16 * m + rem = 0) (cbc : Block 16) (c : Cursor Byte) :
    ((omac1Blocks aes rem m cbc c).bind fun p => omac1Last aes totalLen rem p.1 p.2) =
      (c.reads true (16 * m + rem)).map fun p =>
        cmacFrom aes (gfMulx (aes (ofBytes 16 []))) (gfMulx (gfMulx (aes (ofBytes 16 []))))
          ((16 * m + rem - 1) / 16) cbc p.1 := by
  induction m generalizing cbc c with
  | zero =>
    rw [omac1Blocks, Option.bind_some, omac1Last, if_pos (by omega), Nat.mul_zero, Nat.zero_add,
      show (rem - 1) / 16 = 0 by omega]
    refine Option.map_congr fun p hp => ?_
    dsimp only
    rw [cmacFrom, lastBlock, if_neg (by rw [Cursor.length_of_reads hp]; omega), ← xorBlock_assoc,
      ← xorBlock_assoc, xorBlock_comm cbc]
  | succ m ih =>
    rw [omac1Blocks]
    dsimp only
    rw [Option.bind_assoc]
    by_cases hlast : 16 * (m + 1) + rem = 16
    · -- nothing is behind the block
      obtain rfl : m = 0 := by omega
      obtain rfl : rem = 0 := by omega
      refine (Option.bind_congr fun p hp => ?_).trans (Option.map_eq_bind).symm
      rw [omac1Blocks, Option.bind_some, omac1Last, if_neg (by omega), if_neg (by decide),
        Function.comp_apply, show (16 * (0 + 1) + 0 - 1) / 16 = 0 from rfl, cmacFrom, lastBlock,
        if_pos (Cursor.length_of_reads hp), ← xorBlock_assoc, ← xorBlock_assoc, xorBlock_comm cbc]
    · have hleft : 16 * (m + 1) + rem = 16 + (16 * m + rem) := by omega
      rw [beq_eq_false_iff_ne.mpr hlast, hleft, Cursor.reads_add true 16 (by omega), Option.map_bind]
      refine Option.bind_congr fun p hp => ?_
      rw [if_pos (by omega), ih (by omega), Function.comp_apply, Option.map_map]
      refine Option.map_congr fun q hq => ?_
      rw [Function.comp_apply, show (16 + (16 * m + rem) - 1) / 16 = (16 * m + rem - 1) / 16 + 1 by
        omega, cmacFrom_succ_append _ _ _ (Cursor.length_of_reads hp)]

end Cipher

/-- The subkeys are the encrypted zero block, multiplied once and twice. -/
theorem omac1AesVector_eq_cmac {key : List Byte} {ctx : List Word × ℕ}
    (hctx : aesEncryptInit key = some ctx) (elems : List (List Byte)) :
    omac1AesVector key elems =
      if elems ≠ [] ∧ Gapless elems then
        some (some (cmac (aesEncrypt ctx) (gfMulx (aesEncrypt ctx (ofBytes 16 [])))
          (gfMulx (gfMulx (aesEncrypt ctx (ofBytes 16 [])))) elems.flatten))
      else none := by
  rw [omac1AesVector, hctx]
  cases elems with
  | nil => rfl
  | cons addr addrs =>
    have htotal : ((addr :: addrs).map List.length).sum = (addr :: addrs).flatten.length :=
      List.length_flatten.symm
    dsimp only
    rw [htotal, omac1Blocks_last (aesEncrypt ctx) (Nat.mod_lt _ (by decide)) (by omega),
      Nat.div_add_mod, Option.map_map]
    have hread (l : List Byte) : (Cursor.reads true (addr :: addrs).flatten.length
        ⟨addr, addrs⟩).map Prod.fst = some l ↔
          Gapless (addr :: addrs) ∧ l = (addr :: addrs).flatten :=
      Cursor.map_fst_reads_eq_some_iff ⟨addr, addrs⟩
    cases hp : Cursor.reads true (addr :: addrs).flatten.length ⟨addr, addrs⟩ with
    | none =>
      rw [hp, Option.map_none] at hread
      have hgap : ¬ Gapless (addr :: addrs) := fun hg =>
        Option.some_ne_none _ ((hread _).mpr ⟨hg, rfl⟩).symm
      rw [if_neg (fun h => hgap h.2), Option.map_none]
    | some p =>
      rw [hp, Option.map_some] at hread
      obtain ⟨hg, hfst⟩ := (hread p.1).mp rfl
      rw [if_pos ⟨List.cons_ne_nil addr addrs, hg⟩, Option.map_some, Function.comp_apply, hfst]
      rfl

/-- One element is read to its end. -/
theorem omac1AesVector_singleton (key data : List Byte) :
    omac1AesVector key [data] = some (omac1Aes key data) := by
  rw [omac1Aes]
  cases hctx : aesEncryptInit key with
  | none =>
    rw [omac1AesVector, hctx]
    rfl
  | some ctx =>
    have hgap : Gapless [data] := ⟨fun _ => rfl, trivial⟩
    rw [omac1AesVector_eq_cmac hctx, if_pos ⟨List.cons_ne_nil data [], hgap⟩]
    rfl

/-- The elements are authenticated as one text if no empty element is in front of a byte; otherwise
the function reads outside of them. The subkeys are the encrypted zero block, multiplied by `x` and
by its square. -/
theorem omac1AesVector_eq {key : List Byte} {ctx : List Word × ℕ}
    (hctx : aesEncryptInit key = some ctx) (elems : List (List Byte)) :
    ∃ k1 k2,
      ofBlockBe k1 = AdjoinRoot.root gcmPoly * ofBlockBe (aesEncrypt ctx (ofBytes 16 [])) ∧
      ofBlockBe k2 = AdjoinRoot.root gcmPoly ^ 2 * ofBlockBe (aesEncrypt ctx (ofBytes 16 [])) ∧
      omac1AesVector key elems =
        if elems ≠ [] ∧ Gapless elems then some (some (cmac (aesEncrypt ctx) k1 k2 elems.flatten))
        else none := by
  refine ⟨_, _, ofBlockBe_gfMulx _, ?_, omac1AesVector_eq_cmac hctx elems⟩
  rw [ofBlockBe_gfMulx, ofBlockBe_gfMulx, pow_two, mul_assoc]

/-- Behind an empty element. -/
theorem omac1AesVector_gap : omac1AesVector (.replicate 16 0) [[1], [], [2]] = none := by
  obtain ⟨ctx, hctx⟩ := Option.isSome_iff_exists.mp
    (show (aesEncryptInit (.replicate 16 0)).isSome by decide +kernel)
  obtain ⟨k1, k2, -, -, h⟩ := omac1AesVector_eq hctx [[1], [], [2]]
  rw [h, if_neg (by decide)]

end Rtl88x2cu.Crypto
