import Rtl88x2cu.Crypto.Aes

/-!
# Counter mode with CBC-MAC

`core/crypto/aes-ccm.c`: the authenticated encryption of CCMP, with a length field of two bytes
(`L = 2`) and a nonce of thirteen.

`aesCcmAd_eq_some_iff` says that decryption accepts exactly the results of encryption, and
`ccmBlocks_prefix_iff` that the blocks which are authenticated determine the message and are never
the beginning of the blocks of another one.
-/

namespace Rtl88x2cu.Crypto

open Bytes BlockMode

/-! ## Model -/

/-- `os_memcmp_const`. -/
def osMemcmpConst (a b : List Byte) (len : ℕ) : Byte :=
  (List.zipWith (· ^^^ ·) (a.take len) (b.take len)).foldl (· ||| ·) 0

/-- `B_0`: flags, nonce and the length of the plain text. -/
def ccmB0 (M : ℕ) (nonce : Vector Byte 13) (aadLen plainLen : ℕ) : Block 16 :=
  let adata : Byte := if aadLen ≠ 0 then 0x40 else 0
  let m : Byte := (((BitVec.ofNat 64 M - 2) / 2) <<< 3).setWidth 8
  ofBytes 16 ((adata ||| m ||| 1) :: (nonce.toList ++ be16 plainLen))

/-- `A_i`: flags, nonce and counter. -/
def ccmA (nonce : Vector Byte 13) (i : ℕ) : Block 16 :=
  ofBytes 16 (1 :: (nonce.toList ++ be16 i))

section Cipher

variable (aes : Block 16 → Block 16)

/-- `aes_ccm_auth_start`, for at most 30 bytes of additional data. -/
def aesCcmAuthStart (M : ℕ) (nonce : Vector Byte 13) (aad : List Byte) (plainLen : ℕ) : Block 16 :=
  let x := aes (ccmB0 M nonce aad.length plainLen)
  if aad.length = 0 then x
  else
    let aadBuf := be16 aad.length ++ (aad ++ List.replicate (30 - aad.length) 0)
    let x := aes (xorBlock (ofBytes 16 aadBuf) x)
    if aad.length > 14 then aes (xorBlock (ofBytes 16 (aadBuf.drop 16)) x) else x

/-- The loop of `aes_ccm_auth` over the full blocks, and its last step. -/
def aesCcmAuthFrom : ℕ → List Byte → Block 16 → Block 16
  | 0, data, x => if data.length ≠ 0 then aes (xorBlock x (ofBytes 16 data)) else x
  | k + 1, data, x => aesCcmAuthFrom k (data.drop 16) (aes (xorBlock x (ofBytes 16 data)))

/-- `aes_ccm_auth`. -/
def aesCcmAuth (data : List Byte) (x : Block 16) : Block 16 :=
  aesCcmAuthFrom aes (data.length / 16) data x

/-- `aes_ccm_encr`, for the counters from one on. -/
def aesCcmEncr (nonce : Vector Byte 13) (inp : List Byte) : List Byte :=
  crypt (· + 1) (fun i => aes (ccmA nonce i)) (inp.length / 16) 1 inp

/-- `aes_ccm_encr_auth` and `aes_ccm_decr_auth`. -/
def aesCcmEncrAuth (M : ℕ) (nonce : Vector Byte 13) (x : List Byte) : List Byte :=
  mask (x.take M) (aes (ccmA nonce 0))

end Cipher

/-- `aes_ccm_ae`: the encrypted text and the `M` bytes that authenticate it. -/
def aesCcmAe (key : List Byte) (nonce : Vector Byte 13) (M : ℕ) (plain aad : List Byte) :
    Option (List Byte × List Byte) :=
  if aad.length > 30 ∨ M > 16 then none
  else (aesEncryptInit key).bind fun ctx =>
    let aes := aesEncrypt ctx
    let x := aesCcmAuthStart aes M nonce aad plain.length
    let x := aesCcmAuth aes plain x
    some (aesCcmEncr aes nonce plain, aesCcmEncrAuth aes M nonce x.toList)

/-- `aes_ccm_ad`. -/
def aesCcmAd (key : List Byte) (nonce : Vector Byte 13) (M : ℕ) (crypt aad auth : List Byte) :
    Option (List Byte) :=
  if aad.length > 30 ∨ M > 16 then none
  else (aesEncryptInit key).bind fun ctx =>
    let aes := aesEncrypt ctx
    let t := aesCcmEncrAuth aes M nonce auth
    let plain := aesCcmEncr aes nonce crypt
    let x := aesCcmAuthStart aes M nonce aad crypt.length
    let x := aesCcmAuth aes plain x
    if osMemcmpConst x.toList t M ≠ 0 then none else some plain

/-! ## Decryption accepts the results of encryption -/

theorem foldl_or_eq_zero (l : List Byte) (a : Byte) :
    l.foldl (· ||| ·) a = 0 ↔ a = 0 ∧ ∀ b ∈ l, b = 0 := by
  induction l generalizing a with
  | nil => simp
  | cons b l ih => 
    have hor : a ||| b = 0 ↔ a = 0 ∧ b = 0 := BitVec.or_eq_zero_iff
    rw [List.foldl_cons, ih, List.forall_mem_cons, hor, and_assoc]

/-- The comparison in constant time is a comparison. -/
theorem osMemcmpConst_eq_zero_iff {a b : List Byte} {len : ℕ} (ha : len ≤ a.length)
    (hb : b.length = len) : osMemcmpConst a b len = 0 ↔ a.take len = b := by
  rw [osMemcmpConst, foldl_or_eq_zero, List.take_of_length_le (Nat.le_of_eq hb)]
  have hlen : (a.take len).length = b.length := by
    rw [List.length_take, Nat.min_eq_left ha, hb]
  constructor
  · rintro ⟨-, hall⟩
    apply List.ext_getElem hlen
    intro i hi hi'
    have hmem := hall _ (List.getElem_mem (l := List.zipWith (· ^^^ ·) (a.take len) b) (n := i)
      (by rw [List.length_zipWith, hlen, Nat.min_self]; exact hi'))
    rw [List.getElem_zipWith] at hmem
    exact BitVec.xor_eq_zero_iff.mp hmem
  · intro h
    refine ⟨rfl, fun x hx => ?_⟩
    rw [h] at hx
    obtain ⟨i, hi, rfl⟩ := List.mem_iff_getElem.mp hx
    rw [List.getElem_zipWith, BitVec.xor_self]
    rfl

section Cipher

variable (aes : Block 16 → Block 16) (nonce : Vector Byte 13)

theorem length_aesCcmEncr (inp : List Byte) : (aesCcmEncr aes nonce inp).length = inp.length :=
  length_crypt_div _ _ (by decide) _ _

/-- Encryption is its own inverse. -/
theorem aesCcmEncr_eq_iff (plain crypt : List Byte) :
    aesCcmEncr aes nonce plain = crypt ↔ aesCcmEncr aes nonce crypt = plain :=
  crypt_crypt _ _ (by decide) _ _ _

theorem length_aesCcmEncrAuth {M : ℕ} (hM : M ≤ 16) {x : List Byte} (hx : M ≤ x.length) :
    (aesCcmEncrAuth aes M nonce x).length = M := by
  rw [aesCcmEncrAuth, length_mask _ (by rw [List.length_take]; omega), List.length_take,
    Nat.min_eq_left hx]

/-- The authentication value is encrypted and decrypted alike. -/
theorem aesCcmEncrAuth_eq_iff {M : ℕ} (hM : M ≤ 16) {x auth : List Byte} (hx : M ≤ x.length)
    (hauth : auth.length = M) :
    x.take M = aesCcmEncrAuth aes M nonce auth ↔ aesCcmEncrAuth aes M nonce x = auth := by
  have hcancel (l : List Byte) (hl : l.length = M) :
      mask (mask l (aes (ccmA nonce 0))) (aes (ccmA nonce 0)) = l := by
    apply List.ext_getElem
    · rw [length_mask _ (by rw [length_mask _ (hl ▸ hM), hl]; exact hM), length_mask _ (hl ▸ hM)]
    · intro i hi hi'
      simp only [mask, List.getElem_zipWith, BitVec.xor_assoc, BitVec.xor_self, BitVec.xor_zero]
  have htake : (x.take M).length = M := by
    rw [List.length_take, Nat.min_eq_left hx]
  rw [aesCcmEncrAuth, aesCcmEncrAuth, List.take_of_length_le (Nat.le_of_eq hauth)]
  constructor
  · intro h
    rw [h, hcancel auth hauth]
  · rintro rfl
    rw [hcancel _ htake]

end Cipher

/-- Decryption accepts an encrypted text, and gives a plain text, exactly if the plain text is
encrypted to it. -/
theorem aesCcmAd_eq_some_iff {key : List Byte} {nonce : Vector Byte 13} {M : ℕ}
    {crypt aad auth plain : List Byte} (hauth : auth.length = M) :
    aesCcmAd key nonce M crypt aad auth = some plain ↔
      aesCcmAe key nonce M plain aad = some (crypt, auth) := by
  rw [aesCcmAd, aesCcmAe]
  by_cases hbounds : aad.length > 30 ∨ M > 16
  · rw [if_pos hbounds, if_pos hbounds]
    simp
  · rw [if_neg hbounds, if_neg hbounds]
    have hM : M ≤ 16 := by omega
    cases hctx : aesEncryptInit key with
    | none => simp
    | some ctx =>
      simp only [Option.bind_some, Option.ite_none_left_eq_some, Option.some.injEq, Prod.mk.injEq,
        not_not]
      rw [← aesCcmEncr_eq_iff (aesEncrypt ctx) nonce plain crypt]
      have hcheck (x : Block 16) :
          osMemcmpConst x.toList (aesCcmEncrAuth (aesEncrypt ctx) M nonce auth) M = 0 ↔
            aesCcmEncrAuth (aesEncrypt ctx) M nonce x.toList = auth := by
        have hx : M ≤ x.toList.length := by rwa [Vector.length_toList]
        rw [osMemcmpConst_eq_zero_iff hx
          (length_aesCcmEncrAuth _ _ hM (Nat.le_of_eq hauth.symm)),
          aesCcmEncrAuth_eq_iff _ _ hM hx hauth]
      rw [hcheck, and_comm]
      refine and_congr_right fun hcrypt => ?_
      -- both sides authenticate the same plain text
      have hplain := (aesCcmEncr_eq_iff (aesEncrypt ctx) nonce plain crypt).mp hcrypt
      rw [hplain, ← hcrypt, length_aesCcmEncr]

/-! ## What is authenticated -/

/-- The blocks that are authenticated: `B_0`, the additional data behind its length, and the plain
text. -/
def ccmBlocks (M : ℕ) (nonce : Vector Byte 13) (aad plain : List Byte) : List (Block 16) :=
  ccmB0 M nonce aad.length plain.length ::
    ((if aad.length = 0 then [] else blocks 16 (be16 aad.length ++ aad)) ++ blocks 16 plain)

/-- The chain of the cipher over blocks. -/
def chain (aes : Block 16 → Block 16) (x : Block 16) (bs : List (Block 16)) : Block 16 :=
  bs.foldl (fun x b => aes (xorBlock x b)) x

theorem aesCcmAuth_eq_chain (aes : Block 16 → Block 16) (data : List Byte) (x : Block 16) :
    aesCcmAuth aes data x = chain aes x (blocks 16 data) := by
  rw [aesCcmAuth, blocks]
  induction data.length / 16 generalizing data x with
  | zero =>
    rw [aesCcmAuthFrom, blocksFrom]
    by_cases hdata : data = []
    · rw [hdata, List.length_nil, if_neg (by decide), if_pos rfl]
      rfl
    · rw [if_pos (by rwa [Ne, List.length_eq_zero_iff]), if_neg hdata]
      rfl
  | succ k ih => rw [aesCcmAuthFrom, ih, blocksFrom]; rfl

theorem xorBlock_zero (b : Block 16) : xorBlock (Vector.replicate 16 0) b = b := by
  ext i hi : 1
  rw [getElem_xorBlock _ _ hi, Vector.getElem_replicate]
  exact BitVec.zero_xor

theorem aesCcmAuthStart_eq_chain (aes : Block 16 → Block 16) (M : ℕ) (nonce : Vector Byte 13)
    {aad : List Byte} (haad : aad.length ≤ 30) (plainLen : ℕ) :
    aesCcmAuthStart aes M nonce aad plainLen =
      chain aes (Vector.replicate 16 0) (ccmB0 M nonce aad.length plainLen ::
        if aad.length = 0 then [] else blocks 16 (be16 aad.length ++ aad)) := by
  rw [aesCcmAuthStart, chain, List.foldl_cons, xorBlock_zero]
  by_cases hnone : aad.length = 0
  · rw [if_pos hnone, if_pos hnone]
    rfl
  · rw [if_neg hnone, if_neg hnone, ← List.append_assoc]
    dsimp only
    rw [ofBytes_append_zeros, xorBlock_comm (ofBytes 16 (be16 aad.length ++ aad)),
      blocks_of_ne_nil (by decide) (by simp [be16]), List.foldl_cons]
    have hlen : (be16 aad.length ++ aad).length = 2 + aad.length := by
      rw [List.length_append, length_be16]
    by_cases hlong : aad.length > 14
    · -- a second block, which is filled with zeros
      have hne : (be16 aad.length ++ aad).drop 16 ≠ [] := by
        rw [Ne, List.drop_eq_nil_iff, hlen]
        omega
      have hend : ((be16 aad.length ++ aad).drop 16).drop 16 = [] := by
        rw [List.drop_drop, List.drop_eq_nil_iff, hlen]
        omega
      rw [if_pos hlong, List.drop_append_of_le_length (by rw [hlen]; omega), ofBytes_append_zeros,
        xorBlock_comm (ofBytes 16 _), blocks_of_ne_nil (by decide) hne, hend, blocks_nil, List.foldl_cons,
        List.foldl_nil]
    · have hend : (be16 aad.length ++ aad).drop 16 = [] := by
        rw [List.drop_eq_nil_iff, hlen]
        omega
      rw [if_neg hlong, hend, blocks_nil, List.foldl_nil]

/-- The authentication value is the chain of the cipher over the blocks of the message. -/
theorem aesCcmAuth_eq_chain_ccmBlocks (aes : Block 16 → Block 16) (M : ℕ) (nonce : Vector Byte 13)
    {aad : List Byte} (haad : aad.length ≤ 30) (plain : List Byte) :
    aesCcmAuth aes plain (aesCcmAuthStart aes M nonce aad plain.length) =
      chain aes (Vector.replicate 16 0) (ccmBlocks M nonce aad plain) := by
  rw [aesCcmAuth_eq_chain, aesCcmAuthStart_eq_chain aes M nonce haad, ccmBlocks, chain, chain,
    chain, ← List.cons_append, List.foldl_append]

theorem be16_injective {m n : ℕ} (hm : m < 65536) (hn : n < 65536) (h : be16 m = be16 n) :
    m = n := by
  rw [← ofBe16_be16 hm, h, ofBe16_be16 hn]

/-- The first block gives the nonce, the length of the plain text, and whether there is additional
data. -/
theorem ccmB0_eq_iff {M : ℕ} (hM : 2 ≤ M) (hM' : M ≤ 16) {nonce nonce' : Vector Byte 13}
    {a a' p p' : ℕ} (hp : p < 65536) (hp' : p' < 65536) :
    ccmB0 M nonce a p = ccmB0 M nonce' a' p' ↔ nonce = nonce' ∧ p = p' ∧ (a = 0 ↔ a' = 0) := by
  have hflags : ∀ M : Fin 17, 2 ≤ M.val →
      (0x40 : Byte) ||| ((((BitVec.ofNat 64 M.val - 2) / 2) <<< 3).setWidth 8) ||| 1 ≠
        0 ||| ((((BitVec.ofNat 64 M.val - 2) / 2) <<< 3).setWidth 8) ||| 1 := by
    decide +kernel
  have hlen (b : Byte) (nonce : Vector Byte 13) (p : ℕ) :
      (b :: (nonce.toList ++ be16 p)).length = 16 := by
    rw [List.length_cons, List.length_append, Vector.length_toList, length_be16]
  constructor
  · intro h
    have hlist := congrArg Vector.toList h
    rw [ccmB0, ccmB0, toList_ofBytes (hlen _ _ _), toList_ofBytes (hlen _ _ _),
      List.cons.injEq] at hlist
    obtain ⟨hhead, hrest⟩ := hlist
    obtain ⟨hnonce, hbe⟩ := List.append_inj hrest (by rw [Vector.length_toList,
      Vector.length_toList])
    refine ⟨Vector.toList_inj.mp hnonce, be16_injective hp hp' hbe, ?_⟩
    by_cases ha : a = 0
    · by_cases ha' : a' = 0
      · exact iff_of_true ha ha'
      · rw [if_neg (not_not_intro ha), if_pos ha'] at hhead
        exact absurd hhead.symm (hflags ⟨M, by omega⟩ hM)
    · by_cases ha' : a' = 0
      · rw [if_pos ha, if_neg (not_not_intro ha')] at hhead
        exact absurd hhead (hflags ⟨M, by omega⟩ hM)
      · exact iff_of_false ha ha'
  · rintro ⟨rfl, rfl, ha⟩
    rw [ccmB0, ccmB0]
    by_cases h0 : a = 0
    · rw [h0, ha.mp h0]
    · rw [if_pos h0, if_pos (fun h => h0 (ha.mpr h))]

/-- The blocks of one message are never the beginning of the blocks of another one. -/
theorem ccmBlocks_prefix_iff {M : ℕ} (hM : 2 ≤ M) (hM' : M ≤ 16) {nonce nonce' : Vector Byte 13}
    {aad aad' plain plain' : List Byte} (haad : aad.length ≤ 30) (haad' : aad'.length ≤ 30)
    (hplain : plain.length < 65536) (hplain' : plain'.length < 65536) :
    ccmBlocks M nonce aad plain <+: ccmBlocks M nonce' aad' plain' ↔
      nonce = nonce' ∧ aad = aad' ∧ plain = plain' := by
  constructor
  · intro h
    rw [ccmBlocks, ccmBlocks, List.cons_prefix_cons, ccmB0_eq_iff hM hM' hplain hplain'] at h
    obtain ⟨⟨hnonce, hlen, hnone⟩, t, ht⟩ := h
    refine ⟨hnonce, ?_⟩
    -- the lengths are known, so the two texts are cut at the same places
    have htext (h : blocks 16 plain ++ t = blocks 16 plain') : plain = plain' := by
      rw [← List.append_nil (blocks 16 plain')] at h
      have hblocks := List.append_inj h (length_blocks (Nat.succ_pos 15) hlen)
      exact blocks_injective (Nat.succ_pos 15) hlen hblocks.1
    by_cases h0 : aad.length = 0
    · have h0' := hnone.mp h0
      rw [if_pos h0, if_pos h0', List.nil_append, List.nil_append] at ht
      exact ⟨(List.length_eq_zero_iff.mp h0).trans (List.length_eq_zero_iff.mp h0').symm, htext ht⟩
    · have h0' := fun h => h0 (hnone.mpr h)
      rw [if_neg h0, if_neg h0'] at ht
      have hne (l : List Byte) : be16 l.length ++ l ≠ [] := by simp [be16]
      have hfirst := ht
      rw [blocks_of_ne_nil (by decide) (hne aad), blocks_of_ne_nil (by decide) (hne aad')] at hfirst
      have hblock := (List.cons.inj hfirst).1
      -- the length of the additional data is in its first block
      have haadLen : aad.length = aad'.length := by
        apply be16_injective (by omega) (by omega)
        have h0 := getD_eq_of_ofBytes_eq hblock (show 0 < 16 by decide)
        have h1 := getD_eq_of_ofBytes_eq hblock (show 1 < 16 by decide)
        exact congrArg₂ (fun b c => [b, c]) h0 h1
      have hlenAad : (be16 aad.length ++ aad).length = (be16 aad'.length ++ aad').length := by
        rw [List.length_append, List.length_append, haadLen]
      rw [List.append_assoc] at ht
      obtain ⟨haadBlocks, hrest⟩ := List.append_inj ht (length_blocks (by decide) hlenAad)
      have haadEq := blocks_injective (by decide) hlenAad haadBlocks
      exact ⟨(List.append_inj haadEq rfl).2, htext hrest⟩
  · rintro ⟨rfl, rfl, rfl⟩
    exact List.prefix_rfl

/-- A text and a longer one. -/
theorem ccmBlocks_longer :
    ¬ ccmBlocks 8 (ofBytes 13 []) [1] [2] <+: ccmBlocks 8 (ofBytes 13 []) [1] [2, 0] := by
  intro h
  have heq := (ccmBlocks_prefix_iff (by decide) (by decide) (by decide) (by decide) (by decide)
    (by decide)).mp h
  exact absurd heq.2.2 (by decide)

end Rtl88x2cu.Crypto
