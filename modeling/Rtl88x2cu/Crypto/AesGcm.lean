import Rtl88x2cu.Crypto.AesCcm
import Rtl88x2cu.Lib.BinaryField

/-!
# Galois/Counter Mode

`core/crypto/aes-gcm.c`: the authenticated encryption of GCMP, and `aes_gmac`.

`ofBlock_gfMult` says that the bit-wise `gf_mult` is multiplication of polynomials modulo
`x¹²⁸ + x⁷ + x² + x + 1`, and `ofBlock_aesGcmGhash` that the hash is the value of a polynomial, whose
coefficients are the blocks of the message, at the hash key. `aesGcmAd_eq_some_iff` says that
decryption accepts exactly the results of encryption.
-/

namespace Rtl88x2cu.Crypto

open Bytes BlockMode BinaryField Polynomial

/-! ## Model -/

/-- `WPA_GET_BE32`. -/
def getBe32 (buf : List Byte) (off : ℕ) : Word :=
  buf.getD off 0 ++ buf.getD (off + 1) 0 ++ buf.getD (off + 2) 0 ++ buf.getD (off + 3) 0

/-- `WPA_PUT_BE64`. -/
def putBe64 (v : BitVec 64) : List Byte :=
  putu32 ((v >>> 32).setWidth 32) ++ putu32 (v.setWidth 32)

/-- `inc32`; `PUTU32` is `WPA_PUT_BE32`. -/
def inc32 (block : Block 16) : Block 16 :=
  ofBytes 16 (block.toList.take 12 ++ putu32 (getBe32 block.toList 12 + 1))

/-- A word of `shift_right_block`; the bit before it is shifted in. -/
def shiftRightWord (v : List Byte) (off : ℕ) (bit : Bool) : List Byte :=
  putu32 ((getBe32 v off >>> 1) ||| if bit then 0x80000000 else 0)

/-- `shift_right_block`. -/
def shiftRightBlock (v : Block 16) : Block 16 :=
  ofBytes 16 (shiftRightWord v.toList 0 false ++
    shiftRightWord v.toList 4 ((v.toList.getD 3 0).getLsbD 0) ++
    shiftRightWord v.toList 8 ((v.toList.getD 7 0).getLsbD 0) ++
    shiftRightWord v.toList 12 ((v.toList.getD 11 0).getLsbD 0))

/-- `V_(i + 1)`; the reduction is `v[0] ^= 0xe1`. -/
def gfShift (v : Block 16) : Block 16 :=
  if (v.toList.getD 15 0).getLsbD 0 then xorBlock (shiftRightBlock v) (ofBytes 16 [0xe1])
  else shiftRightBlock v

/-- The bits of `x`, in the order of the loops of `gf_mult`. -/
def blockBits (x : Block 16) : List Bool :=
  x.toList.flatMap fun b => (List.range 8).map fun j => b.getLsbD (7 - j)

/-- `gf_mult`. -/
def gfMult (x y : Block 16) : Block 16 :=
  ((blockBits x).foldl (fun p bit => (if bit then xorBlock p.1 p.2 else p.1, gfShift p.2))
    (ofBytes 16 [], y)).1

/-- `ghash`, from the value `y` on. -/
def ghash (h : Block 16) (x : List Byte) (y : Block 16) : Block 16 :=
  (blocks 16 x).foldl (fun y b => gfMult (xorBlock y b) h) y

section Cipher

variable (aes : Block 16 → Block 16)

/-- `aes_gctr`. -/
def aesGctr (icb : Block 16) (x : List Byte) : List Byte :=
  if x.length = 0 then [] else crypt inc32 aes (x.length / 16) icb x

/-- `aes_gcm_prepare_j0`. -/
def aesGcmPrepareJ0 (iv : List Byte) (h : Block 16) : Block 16 :=
  if iv.length = 12 then ofBytes 16 (iv ++ [0, 0, 0, 1])
  else
    let j0 := ghash h iv (ofBytes 16 [])
    ghash h (putBe64 0 ++ putBe64 (BitVec.ofNat 64 (iv.length * 8))) j0

/-- `aes_gcm_gctr`. -/
def aesGcmGctr (j0 : Block 16) (x : List Byte) : List Byte :=
  if x.length = 0 then [] else aesGctr aes (inc32 j0) x

/-- `aes_gcm_ghash`. -/
def aesGcmGhash (h : Block 16) (aad crypt : List Byte) : Block 16 :=
  let s := ghash h aad (ofBytes 16 [])
  let s := ghash h crypt s
  ghash h (putBe64 (BitVec.ofNat 64 (aad.length * 8)) ++
    putBe64 (BitVec.ofNat 64 (crypt.length * 8))) s

end Cipher

/-- `aes_gcm_ae`: the encrypted text and the tag. -/
def aesGcmAe (key iv plain aad : List Byte) : Option (List Byte × List Byte) :=
  (aesEncryptInit key).map fun ctx =>
    let aes := aesEncrypt ctx
    let h := aes (ofBytes 16 [])
    let j0 := aesGcmPrepareJ0 iv h
    let crypt := aesGcmGctr aes j0 plain
    (crypt, aesGctr aes j0 (aesGcmGhash h aad crypt).toList)

/-- `aes_gcm_ad`. -/
def aesGcmAd (key iv crypt aad tag : List Byte) : Option (List Byte) :=
  (aesEncryptInit key).bind fun ctx =>
    let aes := aesEncrypt ctx
    let h := aes (ofBytes 16 [])
    let j0 := aesGcmPrepareJ0 iv h
    let plain := aesGcmGctr aes j0 crypt
    let t := aesGctr aes j0 (aesGcmGhash h aad crypt).toList
    if osMemcmpConst tag t 16 ≠ 0 then none else some plain

/-- `aes_gmac`. -/
def aesGmac (key iv aad : List Byte) : Option (List Byte) :=
  (aesGcmAe key iv [] aad).map fun c => c.2

/-! ## Decryption accepts the results of encryption -/

section Cipher

variable (aes : Block 16 → Block 16)

theorem length_aesGctr (icb : Block 16) (x : List Byte) :
    (aesGctr aes icb x).length = x.length := by
  rw [aesGctr]
  split
  · rename_i h
    rw [h, List.length_nil]
  · exact length_crypt_div inc32 aes (by decide) icb x

theorem length_aesGcmGctr (j0 : Block 16) (x : List Byte) :
    (aesGcmGctr aes j0 x).length = x.length := by
  rw [aesGcmGctr]
  split
  · rename_i h
    rw [h, List.length_nil]
  · exact length_aesGctr aes (inc32 j0) x

theorem aesGcmGctr_eq (j0 : Block 16) (x : List Byte) :
    aesGcmGctr aes j0 x = crypt inc32 aes (x.length / 16) (inc32 j0) x := by
  rw [aesGcmGctr, aesGctr]
  by_cases hx : x.length = 0
  · rw [if_pos hx, List.eq_nil_of_length_eq_zero hx]
    rfl
  · rw [if_neg hx, if_neg hx]

/-- Encryption is its own inverse. -/
theorem aesGcmGctr_eq_iff (j0 : Block 16) (plain c : List Byte) :
    aesGcmGctr aes j0 plain = c ↔ aesGcmGctr aes j0 c = plain := by
  rw [aesGcmGctr_eq, aesGcmGctr_eq]
  exact crypt_crypt inc32 aes (by decide) (inc32 j0) plain c

end Cipher

/-- Decryption accepts an encrypted text, and gives a plain text, exactly if the plain text is
encrypted to it. -/
theorem aesGcmAd_eq_some_iff {key iv crypt aad tag plain : List Byte} (htag : tag.length = 16) :
    aesGcmAd key iv crypt aad tag = some plain ↔
      aesGcmAe key iv plain aad = some (crypt, tag) := by
  rw [aesGcmAd, aesGcmAe]
  cases hctx : aesEncryptInit key with
  | none => simp
  | some ctx =>
    have hcheck (j0 s : Block 16) :
        osMemcmpConst tag (aesGctr (aesEncrypt ctx) j0 s.toList) 16 = 0 ↔
          aesGctr (aesEncrypt ctx) j0 s.toList = tag := by
      rw [osMemcmpConst_eq_zero_iff (Nat.le_of_eq htag.symm)
        ((length_aesGctr _ _ _).trans Vector.length_toList),
        List.take_of_length_le (Nat.le_of_eq htag)]
      exact eq_comm
    simp only [Option.bind_some, Option.map_some, Option.ite_none_left_eq_some, Option.some.injEq,
      Prod.mk.injEq, not_not]
    rw [hcheck, ← aesGcmGctr_eq_iff _ _ plain crypt, and_comm]
    refine and_congr_right fun hcrypt => ?_
    rw [hcrypt]

/-! ## Bits of blocks -/

/-- The bits of a word, the highest first. -/
def msbBits {n : ℕ} (w : BitVec n) : List Bool := (List.range n).map w.getMsbD

@[simp]
theorem length_msbBits {n : ℕ} (w : BitVec n) : (msbBits w).length = n := by
  rw [msbBits, List.length_map, List.length_range]

theorem getElem_msbBits {n : ℕ} (w : BitVec n) {i : ℕ} (h : i < (msbBits w).length) :
    (msbBits w)[i] = w.getMsbD i := by
  simp only [msbBits, List.getElem_map, List.getElem_range]

theorem msbBits_append {m n : ℕ} (v : BitVec m) (w : BitVec n) :
    msbBits (v ++ w) = msbBits v ++ msbBits w := by
  apply List.ext_getElem
  · rw [List.length_append, length_msbBits, length_msbBits, length_msbBits]
  · intro i hi hi'
    rw [getElem_msbBits, BitVec.getMsbD_append, List.getElem_append]
    simp only [length_msbBits, getElem_msbBits]
    by_cases h : i < m
    · rw [if_neg (Nat.not_le.mpr h), dif_pos h]
    · rw [if_pos (Nat.not_lt.mp h), dif_neg h]

theorem msbBits_xor {n : ℕ} (v w : BitVec n) :
    msbBits (v ^^^ w) = List.zipWith Bool.xor (msbBits v) (msbBits w) := by
  apply List.ext_getElem
  · rw [List.length_zipWith, length_msbBits, length_msbBits, length_msbBits, Nat.min_self]
  · intro i hi hi'
    rw [List.getElem_zipWith, getElem_msbBits, getElem_msbBits, getElem_msbBits,
      BitVec.getMsbD_xor]

/-- A word is shifted to the right by one bit, with another bit in front. -/
theorem msbBits_shift (w : Word) (bit : Bool) :
    msbBits ((w >>> 1) ||| if bit then 0x80000000 else 0) = bit :: (msbBits w).take 31 := by
  have hbit : ∀ (bit : Bool) (i : Fin 32),
      (if bit then 0x80000000 else 0 : Word).getMsbD i = (bit && decide (i.val = 0)) := by
    decide
  apply List.ext_getElem
  · rw [length_msbBits, List.length_cons, List.length_take, length_msbBits]
    rfl
  · intro i hi hi'
    rw [length_msbBits] at hi
    rw [getElem_msbBits, BitVec.getMsbD_or, BitVec.getMsbD_ushiftRight, hbit bit ⟨i, hi⟩,
      List.getElem_cons]
    by_cases h : i = 0
    · subst h
      simp
    · rw [dif_neg h, List.getElem_take, getElem_msbBits, decide_eq_false h, Bool.and_false,
        Bool.or_false, decide_eq_true hi, decide_eq_false (by omega)]
      rfl

theorem blockBits_eq (b : Block 16) : blockBits b = b.toList.flatMap msbBits := rfl

/-- The word of four bytes is read from where it is written. -/
theorem flatMap_msbBits_putu32 (w : Word) : (putu32 w).flatMap msbBits = msbBits w := by
  have hw : (w >>> 24).setWidth 8 ++ (w >>> 16).setWidth 8 ++ (w >>> 8).setWidth 8 ++
      w.setWidth 8 = w := by
    apply BitVec.eq_of_getLsbD_eq
    intro i hi
    simp only [BitVec.getLsbD_append, BitVec.getLsbD_setWidth, BitVec.getLsbD_ushiftRight]
    by_cases h8 : i < 8
    · simp [h8]
    · by_cases h16 : i < 16
      · rw [if_neg h8, if_pos (by omega), decide_eq_true (by omega), Bool.true_and]
        congr 1
        omega
      · by_cases h24 : i < 24
        · rw [if_neg h8, if_neg (by omega), if_pos (by omega), decide_eq_true (by omega),
            Bool.true_and]
          congr 1
          omega
        · rw [if_neg h8, if_neg (by omega), if_neg (by omega), decide_eq_true (by omega),
            Bool.true_and]
          congr 1
          omega
  conv_rhs => rw [← hw]
  simp only [putu32, List.flatMap_cons, List.flatMap_nil, List.append_nil, msbBits_append,
    List.append_assoc]

theorem length_flatMap_msbBits (l : List Byte) : (l.flatMap msbBits).length = 8 * l.length := by
  induction l with
  | nil => rfl
  | cons b l ih =>
    rw [List.flatMap_cons, List.length_append, ih, length_msbBits, List.length_cons]
    omega

@[simp]
theorem length_blockBits (b : Block 16) : (blockBits b).length = 128 := by
  rw [blockBits_eq, length_flatMap_msbBits, Vector.length_toList]

theorem blockBits_ofBytes {l : List Byte} (h : l.length = 16) :
    blockBits (ofBytes 16 l) = l.flatMap msbBits := by
  rw [blockBits_eq, toList_ofBytes h]

theorem msbBits_injective {n : ℕ} : Function.Injective (msbBits (n := n)) := by
  intro v w h
  apply BitVec.eq_of_getMsbD_eq
  intro i hi
  have hbit := congrArg (fun l : List Bool => l[i]?) h
  rwa [List.getElem?_eq_getElem (by rwa [length_msbBits]), List.getElem?_eq_getElem
    (by rwa [length_msbBits]), getElem_msbBits, getElem_msbBits, Option.some.injEq] at hbit

/-- Blocks are given by their bits. -/
theorem blockBits_injective : Function.Injective blockBits := by
  intro a b h
  have hlist (l l' : List Byte) (hlen : l.length = l'.length)
      (h : l.flatMap msbBits = l'.flatMap msbBits) : l = l' := by
    induction l generalizing l' with
    | nil => exact (List.eq_nil_of_length_eq_zero hlen.symm).symm
    | cons x l ih =>
      cases l' with
      | nil => simp at hlen
      | cons x' l' =>
        rw [List.length_cons, List.length_cons, Nat.succ_inj] at hlen
        rw [List.flatMap_cons, List.flatMap_cons] at h
        obtain ⟨hx, hl⟩ := List.append_inj h (by rw [length_msbBits, length_msbBits])
        rw [msbBits_injective hx, ih l' hlen hl]
  exact Vector.toList_inj.mp (hlist _ _ (by rw [Vector.length_toList, Vector.length_toList]) h)

theorem blockBits_xorBlock (a b : Block 16) :
    blockBits (xorBlock a b) = List.zipWith Bool.xor (blockBits a) (blockBits b) := by
  have hlist (l l' : List Byte) (h : l.length = l'.length) :
      (List.zipWith (· ^^^ ·) l l').flatMap msbBits =
        List.zipWith Bool.xor (l.flatMap msbBits) (l'.flatMap msbBits) := by
    induction l generalizing l' with
    | nil => rfl
    | cons b l ih =>
      cases l' with
      | nil => simp at h
      | cons b' l' =>
        rw [List.length_cons, List.length_cons, Nat.succ_inj] at h
        rw [List.zipWith_cons_cons, List.flatMap_cons, List.flatMap_cons, List.flatMap_cons,
          List.zipWith_append (by rw [length_msbBits, length_msbBits]), msbBits_xor, ih l' h]
  rw [blockBits_eq, ← mask_toList, mask, hlist _ _ (by simp)]
  rfl

/-- Four words of four bytes. -/
theorem blockBits_eq_words (v : Block 16) :
    blockBits v = msbBits (getBe32 v.toList 0) ++ msbBits (getBe32 v.toList 4) ++
      msbBits (getBe32 v.toList 8) ++ msbBits (getBe32 v.toList 12) := by
  have hlist : v.toList = (List.range 16).map fun i => v.toList.getD i 0 := by
    apply List.ext_getElem
    · rw [List.length_map, List.length_range, Vector.length_toList]
    · intro i hi hi'
      rw [List.getElem_map, List.getElem_range, List.getD_eq_getElem?_getD,
        List.getElem?_eq_getElem hi, Option.getD_some]
  rw [blockBits_eq]
  conv_lhs => rw [hlist]
  simp only [getBe32, msbBits_append, List.append_assoc]
  rfl

/-- The last bit of a word is that of its last byte. -/
theorem msbBits_getBe32 (l : List Byte) (off : ℕ) :
    msbBits (getBe32 l off) =
      (msbBits (getBe32 l off)).take 31 ++ [(l.getD (off + 3) 0).getLsbD 0] := by
  have hlast : (getBe32 l off).getMsbD 31 = (l.getD (off + 3) 0).getLsbD 0 := by
    rw [getBe32, BitVec.getMsbD_append, if_pos (by decide)]
    rfl
  rw [← hlast]
  apply List.ext_getElem
  · rw [List.length_append, List.length_take, length_msbBits, List.length_singleton]
    rfl
  · intro i hi hi'
    rw [length_msbBits] at hi
    rw [List.getElem_append]
    by_cases h : i < 31
    · rw [dif_pos (by rw [List.length_take, length_msbBits]; omega), List.getElem_take]
    · have hi31 : i = 31 := by omega
      subst hi31
      rw [dif_neg (by rw [List.length_take, length_msbBits]; omega), getElem_msbBits]
      simp

/-- `shift_right_block` drops the last bit. -/
theorem blockBits_shiftRightBlock (v : Block 16) :
    ∃ l : List Bool, l.length = 127 ∧
      blockBits v = l ++ [(v.toList.getD 15 0).getLsbD 0] ∧
      blockBits (shiftRightBlock v) = false :: l := by
  have hword (off : ℕ) (bit : Bool) : (shiftRightWord v.toList off bit).flatMap msbBits =
      bit :: (msbBits (getBe32 v.toList off)).take 31 := by
    rw [shiftRightWord, flatMap_msbBits_putu32, msbBits_shift]
  have htake (off : ℕ) : ((msbBits (getBe32 v.toList off)).take 31).length = 31 := by
    rw [List.length_take, length_msbBits]
    rfl
  refine ⟨(msbBits (getBe32 v.toList 0)).take 31 ++ ((v.toList.getD 3 0).getLsbD 0 ::
    ((msbBits (getBe32 v.toList 4)).take 31 ++ ((v.toList.getD 7 0).getLsbD 0 ::
    ((msbBits (getBe32 v.toList 8)).take 31 ++ ((v.toList.getD 11 0).getLsbD 0 ::
    (msbBits (getBe32 v.toList 12)).take 31))))), ?_, ?_, ?_⟩
  · simp only [List.length_append, List.length_cons, htake]
  · conv_lhs => rw [blockBits_eq_words, msbBits_getBe32 _ 0, msbBits_getBe32 _ 4,
      msbBits_getBe32 _ 8, msbBits_getBe32 _ 12]
    simp only [List.append_assoc, List.cons_append, List.nil_append]
  · rw [shiftRightBlock, blockBits_ofBytes rfl]
    simp only [List.flatMap_append, hword, List.cons_append, List.append_assoc]

/-! ## Multiplication -/

/-- The polynomial of the field, without its leading term. -/
noncomputable def gcmTail : (ZMod 2)[X] := X ^ 7 + X ^ 2 + X + 1

/-- The polynomial of the field. -/
noncomputable def gcmPoly : (ZMod 2)[X] := modulus 128 gcmTail

theorem degree_gcmTail_lt : gcmTail.degree < (128 : ℕ) := by
  unfold gcmTail
  compute_degree!

/-- The class of the polynomial whose coefficients are the bits of a block. -/
noncomputable def ofBlock (b : Block 16) : AdjoinRoot gcmPoly := toRing gcmPoly (blockBits b)

/-- Blocks are representatives of the classes. -/
theorem ofBlock_injective : Function.Injective ofBlock := by
  intro a b h
  apply blockBits_injective
  apply toRing_injective (monic_modulus degree_gcmTail_lt) _ _ h
  · rw [length_blockBits, natDegree_modulus degree_gcmTail_lt]
  · rw [length_blockBits, natDegree_modulus degree_gcmTail_lt]

theorem ofBlock_xorBlock (a b : Block 16) : ofBlock (xorBlock a b) = ofBlock a + ofBlock b := by
  rw [ofBlock, toRing, blockBits_xorBlock, eval_zipWith_xor _ add_self
    (by rw [length_blockBits, length_blockBits])]
  rfl

theorem ofBlock_zero : ofBlock (ofBytes 16 []) = 0 := by
  have hself : xorBlock (ofBytes 16 []) (ofBytes 16 []) = ofBytes 16 [] := by
    ext i hi : 1
    rw [getElem_xorBlock, BitVec.xor_self, getElem_ofBytes _ hi]
    rfl
  rw [← hself, ofBlock_xorBlock, add_self]

theorem mk_gcmTail (f : (ZMod 2)[X]) : AdjoinRoot.mk f gcmTail =
    AdjoinRoot.root f ^ 7 + AdjoinRoot.root f ^ 2 + AdjoinRoot.root f + 1 := by
  unfold gcmTail
  rw [map_add, map_add, map_add, map_pow, map_pow, AdjoinRoot.mk_X, map_one]

theorem root_pow : AdjoinRoot.root gcmPoly ^ 128 =
    AdjoinRoot.root gcmPoly ^ 7 + AdjoinRoot.root gcmPoly ^ 2 + AdjoinRoot.root gcmPoly + 1 :=
  root_pow_modulus.trans (mk_gcmTail gcmPoly)

/-- The reduction is the block of `x⁷ + x² + x + 1`. -/
theorem ofBlock_e1 : ofBlock (ofBytes 16 [0xe1]) = AdjoinRoot.root gcmPoly ^ 128 := by
  have hbits : blockBits (ofBytes 16 [0xe1]) =
      [true, true, true, false, false, false, false, true] ++ List.replicate 120 false := by
    decide +kernel
  rw [ofBlock, toRing, hbits, eval_append, eval_replicate_false, root_pow]
  simp only [eval_cons, eval_nil, reduceIte, Bool.false_eq_true]
  ring

/-- A shift multiplies by `x`. -/
theorem ofBlock_gfShift (v : Block 16) :
    ofBlock (gfShift v) = AdjoinRoot.root gcmPoly * ofBlock v := by
  obtain ⟨l, hlen, hv, hshift⟩ := blockBits_shiftRightBlock v
  have hvalue : ofBlock v = eval (AdjoinRoot.root gcmPoly) l +
      AdjoinRoot.root gcmPoly ^ 127 *
        if (v.toList.getD 15 0).getLsbD 0 then 1 else 0 := by
    rw [ofBlock, toRing, hv, eval_append, hlen, eval_cons, eval_nil, mul_zero, add_zero]
  have hshifted : ofBlock (shiftRightBlock v) =
      AdjoinRoot.root gcmPoly * eval (AdjoinRoot.root gcmPoly) l := by
    rw [ofBlock, toRing, hshift, eval_cons, if_neg (by decide), zero_add]
  rw [gfShift, hvalue]
  by_cases hbit : (v.toList.getD 15 0).getLsbD 0
  · rw [if_pos hbit, if_pos hbit, ofBlock_xorBlock, hshifted, ofBlock_e1]
    ring
  · rw [if_neg hbit, if_neg hbit, hshifted]
    ring

/-- `gf_mult` is multiplication modulo the polynomial. -/
theorem ofBlock_gfMult (x y : Block 16) : ofBlock (gfMult x y) = ofBlock x * ofBlock y := by
  have h := eval_foldl_shiftAdd ofBlock_xorBlock ofBlock_gfShift (blockBits x) (ofBytes 16 []) y
  rw [ofBlock_zero, zero_add] at h
  exact h

/-! ## The hash -/

/-- The bits of the two lengths. -/
def lenBlock (aadLen cryptLen : ℕ) : Block 16 :=
  ofBytes 16 (putBe64 (BitVec.ofNat 64 (aadLen * 8)) ++ putBe64 (BitVec.ofNat 64 (cryptLen * 8)))

/-- The blocks that are hashed: the additional data, the encrypted text, and their lengths. -/
def gcmBlocks (aad crypt : List Byte) : List (Block 16) :=
  blocks 16 aad ++ (blocks 16 crypt ++ [lenBlock aad.length crypt.length])

/-- The value at `h` of the polynomial whose coefficients are the blocks, the last one that of the
first power. -/
noncomputable def hornerSum (h : Block 16) (bs : List (Block 16)) : AdjoinRoot gcmPoly :=
  (bs.mapIdx fun i b => ofBlock b * ofBlock h ^ (bs.length - i)).sum

theorem ofBlock_foldl_gfMult (h : Block 16) (bs : List (Block 16)) (y : Block 16) :
    ofBlock (bs.foldl (fun y b => gfMult (xorBlock y b) h) y) =
      ofBlock y * ofBlock h ^ bs.length + hornerSum h bs :=
  foldl_horner (fun v w => by rw [ofBlock_gfMult, ofBlock_xorBlock]) bs y

/-- The hash of a message is a polynomial in the hash key. -/
theorem ofBlock_aesGcmGhash (h : Block 16) (aad crypt : List Byte) :
    ofBlock (aesGcmGhash h aad crypt) = hornerSum h (gcmBlocks aad crypt) := by
  have hlen : blocks 16 (putBe64 (BitVec.ofNat 64 (aad.length * 8)) ++
      putBe64 (BitVec.ofNat 64 (crypt.length * 8))) = [lenBlock aad.length crypt.length] := by
    have hdrop : (putBe64 (BitVec.ofNat 64 (aad.length * 8)) ++
        putBe64 (BitVec.ofNat 64 (crypt.length * 8))).drop 16 = [] := rfl
    rw [blocks_of_ne_nil (by decide) (by simp [putBe64, putu32]), hdrop, blocks_nil]
    rfl
  have hfold : aesGcmGhash h aad crypt =
      (gcmBlocks aad crypt).foldl (fun y b => gfMult (xorBlock y b) h) (ofBytes 16 []) := by
    rw [gcmBlocks, List.foldl_append, List.foldl_append, ← hlen]
    rfl
  rw [hfold, ofBlock_foldl_gfMult, ofBlock_zero, zero_mul, zero_add]

end Rtl88x2cu.Crypto
