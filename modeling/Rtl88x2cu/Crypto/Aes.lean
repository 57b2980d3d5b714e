import Rtl88x2cu.Lib.Rijndael

/-!
# AES with tables

`core/crypto/aes-internal.c` and `core/crypto/aes-internal-enc.c`: the key setup and the encryption
of a block as they are built with `AES_SMALL_TABLES` (`core/crypto/aes_i.h`), that is with the one
table `Te0`, whose words combine the substitution with a column of the mixing matrix.

`aesEncrypt_eq_cipher` says that this is the cipher as it is defined in `Rijndael`.
-/

namespace Rtl88x2cu.Crypto

open Bytes BlockMode

/-! ## Model -/

abbrev Word := BitVec 32

/-- `Te0`. -/
def te0Table : List Word := [
  0xc66363a5#32, 0xf87c7c84#32, 0xee777799#32, 0xf67b7b8d#32, 0xfff2f20d#32, 0xd66b6bbd#32,
  0xde6f6fb1#32, 0x91c5c554#32, 0x60303050#32, 0x02010103#32, 0xce6767a9#32, 0x562b2b7d#32,
  0xe7fefe19#32, 0xb5d7d762#32, 0x4dababe6#32, 0xec76769a#32, 0x8fcaca45#32, 0x1f82829d#32,
  0x89c9c940#32, 0xfa7d7d87#32, 0xeffafa15#32, 0xb25959eb#32, 0x8e4747c9#32, 0xfbf0f00b#32,
  0x41adadec#32, 0xb3d4d467#32, 0x5fa2a2fd#32, 0x45afafea#32, 0x239c9cbf#32, 0x53a4a4f7#32,
  0xe4727296#32, 0x9bc0c05b#32, 0x75b7b7c2#32, 0xe1fdfd1c#32, 0x3d9393ae#32, 0x4c26266a#32,
  0x6c36365a#32, 0x7e3f3f41#32, 0xf5f7f702#32, 0x83cccc4f#32, 0x6834345c#32, 0x51a5a5f4#32,
  0xd1e5e534#32, 0xf9f1f108#32, 0xe2717193#32, 0xabd8d873#32, 0x62313153#32, 0x2a15153f#32,
  0x0804040c#32, 0x95c7c752#32, 0x46232365#32, 0x9dc3c35e#32, 0x30181828#32, 0x379696a1#32,
  0x0a05050f#32, 0x2f9a9ab5#32, 0x0e070709#32, 0x24121236#32, 0x1b80809b#32, 0xdfe2e23d#32,
  0xcdebeb26#32, 0x4e272769#32, 0x7fb2b2cd#32, 0xea75759f#32, 0x1209091b#32, 0x1d83839e#32,
  0x582c2c74#32, 0x341a1a2e#32, 0x361b1b2d#32, 0xdc6e6eb2#32, 0xb45a5aee#32, 0x5ba0a0fb#32,
  0xa45252f6#32, 0x763b3b4d#32, 0xb7d6d661#32, 0x7db3b3ce#32, 0x5229297b#32, 0xdde3e33e#32,
  0x5e2f2f71#32, 0x13848497#32, 0xa65353f5#32, 0xb9d1d168#32, 0x00000000#32, 0xc1eded2c#32,
  0x40202060#32, 0xe3fcfc1f#32, 0x79b1b1c8#32, 0xb65b5bed#32, 0xd46a6abe#32, 0x8dcbcb46#32,
  0x67bebed9#32, 0x7239394b#32, 0x944a4ade#32, 0x984c4cd4#32, 0xb05858e8#32, 0x85cfcf4a#32,
  0xbbd0d06b#32, 0xc5efef2a#32, 0x4faaaae5#32, 0xedfbfb16#32, 0x864343c5#32, 0x9a4d4dd7#32,
  0x66333355#32, 0x11858594#32, 0x8a4545cf#32, 0xe9f9f910#32, 0x04020206#32, 0xfe7f7f81#32,
  0xa05050f0#32, 0x783c3c44#32, 0x259f9fba#32, 0x4ba8a8e3#32, 0xa25151f3#32, 0x5da3a3fe#32,
  0x804040c0#32, 0x058f8f8a#32, 0x3f9292ad#32, 0x219d9dbc#32, 0x70383848#32, 0xf1f5f504#32,
  0x63bcbcdf#32, 0x77b6b6c1#32, 0xafdada75#32, 0x42212163#32, 0x20101030#32, 0xe5ffff1a#32,
  0xfdf3f30e#32, 0xbfd2d26d#32, 0x81cdcd4c#32, 0x180c0c14#32, 0x26131335#32, 0xc3ecec2f#32,
  0xbe5f5fe1#32, 0x359797a2#32, 0x884444cc#32, 0x2e171739#32, 0x93c4c457#32, 0x55a7a7f2#32,
  0xfc7e7e82#32, 0x7a3d3d47#32, 0xc86464ac#32, 0xba5d5de7#32, 0x3219192b#32, 0xe6737395#32,
  0xc06060a0#32, 0x19818198#32, 0x9e4f4fd1#32, 0xa3dcdc7f#32, 0x44222266#32, 0x542a2a7e#32,
  0x3b9090ab#32, 0x0b888883#32, 0x8c4646ca#32, 0xc7eeee29#32, 0x6bb8b8d3#32, 0x2814143c#32,
  0xa7dede79#32, 0xbc5e5ee2#32, 0x160b0b1d#32, 0xaddbdb76#32, 0xdbe0e03b#32, 0x64323256#32,
  0x743a3a4e#32, 0x140a0a1e#32, 0x924949db#32, 0x0c06060a#32, 0x4824246c#32, 0xb85c5ce4#32,
  0x9fc2c25d#32, 0xbdd3d36e#32, 0x43acacef#32, 0xc46262a6#32, 0x399191a8#32, 0x319595a4#32,
  0xd3e4e437#32, 0xf279798b#32, 0xd5e7e732#32, 0x8bc8c843#32, 0x6e373759#32, 0xda6d6db7#32,
  0x018d8d8c#32, 0xb1d5d564#32, 0x9c4e4ed2#32, 0x49a9a9e0#32, 0xd86c6cb4#32, 0xac5656fa#32,
  0xf3f4f407#32, 0xcfeaea25#32, 0xca6565af#32, 0xf47a7a8e#32, 0x47aeaee9#32, 0x10080818#32,
  0x6fbabad5#32, 0xf0787888#32, 0x4a25256f#32, 0x5c2e2e72#32, 0x381c1c24#32, 0x57a6a6f1#32,
  0x73b4b4c7#32, 0x97c6c651#32, 0xcbe8e823#32, 0xa1dddd7c#32, 0xe874749c#32, 0x3e1f1f21#32,
  0x964b4bdd#32, 0x61bdbddc#32, 0x0d8b8b86#32, 0x0f8a8a85#32, 0xe0707090#32, 0x7c3e3e42#32,
  0x71b5b5c4#32, 0xcc6666aa#32, 0x904848d8#32, 0x06030305#32, 0xf7f6f601#32, 0x1c0e0e12#32,
  0xc26161a3#32, 0x6a35355f#32, 0xae5757f9#32, 0x69b9b9d0#32, 0x17868691#32, 0x99c1c158#32,
  0x3a1d1d27#32, 0x279e9eb9#32, 0xd9e1e138#32, 0xebf8f813#32, 0x2b9898b3#32, 0x22111133#32,
  0xd26969bb#32, 0xa9d9d970#32, 0x078e8e89#32, 0x339494a7#32, 0x2d9b9bb6#32, 0x3c1e1e22#32,
  0x15878792#32, 0xc9e9e920#32, 0x87cece49#32, 0xaa5555ff#32, 0x50282878#32, 0xa5dfdf7a#32,
  0x038c8c8f#32, 0x59a1a1f8#32, 0x09898980#32, 0x1a0d0d17#32, 0x65bfbfda#32, 0xd7e6e631#32,
  0x844242c6#32, 0xd06868b8#32, 0x824141c3#32, 0x299999b0#32, 0x5a2d2d77#32, 0x1e0f0f11#32,
  0x7bb0b0cb#32, 0xa85454fc#32, 0x6dbbbbd6#32, 0x2c16163a#32]

/-- `rcons`. -/
def rcons : List Byte := [0x01, 0x02, 0x04, 0x08, 0x10, 0x20, 0x40, 0x80, 0x1B, 0x36]

/-- `Te0[i]`. -/
def te0At (i : Word) : Word := te0Table.getD i.toNat 0

/-- `RCON`. -/
def rcon (i : ℕ) : Word := (rcons.getD i 0).setWidth 32 <<< 24

def rotr (val : Word) (bits : ℕ) : Word := (val >>> bits) ||| (val <<< (32 - bits))

def te0 (i : Word) : Word := te0At ((i >>> 24) &&& 0xff)
def te1 (i : Word) : Word := rotr (te0At ((i >>> 16) &&& 0xff)) 8
def te2 (i : Word) : Word := rotr (te0At ((i >>> 8) &&& 0xff)) 16
def te3 (i : Word) : Word := rotr (te0At (i &&& 0xff)) 24
def te41 (i : Word) : Word := (te0At ((i >>> 24) &&& 0xff) <<< 8) &&& 0xff000000
def te42 (i : Word) : Word := te0At ((i >>> 16) &&& 0xff) &&& 0x00ff0000
def te43 (i : Word) : Word := te0At ((i >>> 8) &&& 0xff) &&& 0x0000ff00
def te44 (i : Word) : Word := (te0At (i &&& 0xff) >>> 8) &&& 0x000000ff
def te421 (i : Word) : Word := (te0At ((i >>> 16) &&& 0xff) <<< 8) &&& 0xff000000
def te432 (i : Word) : Word := te0At ((i >>> 8) &&& 0xff) &&& 0x00ff0000
def te443 (i : Word) : Word := te0At (i &&& 0xff) &&& 0x0000ff00
def te414 (i : Word) : Word := (te0At ((i >>> 24) &&& 0xff) >>> 8) &&& 0x000000ff
def te411 (i : Word) : Word := (te0At ((i >>> 24) &&& 0xff) <<< 8) &&& 0xff000000
def te422 (i : Word) : Word := te0At ((i >>> 16) &&& 0xff) &&& 0x00ff0000
def te433 (i : Word) : Word := te0At ((i >>> 8) &&& 0xff) &&& 0x0000ff00
def te444 (i : Word) : Word := (te0At (i &&& 0xff) >>> 8) &&& 0x000000ff

/-- `GETU32`. -/
def getu32 (pt : List Byte) (off : ℕ) : Word :=
  ((pt.getD off 0).setWidth 32 <<< 24) ^^^ ((pt.getD (off + 1) 0).setWidth 32 <<< 16) ^^^
    ((pt.getD (off + 2) 0).setWidth 32 <<< 8) ^^^ (pt.getD (off + 3) 0).setWidth 32

/-- `PUTU32`. -/
def putu32 (st : Word) : List Byte :=
  [(st >>> 24).setWidth 8, (st >>> 16).setWidth 8, (st >>> 8).setWidth 8, st.setWidth 8]

/-- Round `i` of the key setup for keys of 128 bits; `rk` holds the words written so far. -/
def keySetup128 (rk : List Word) (i : ℕ) : List Word :=
  let p := 4 * i
  let temp := rk.getD (p + 3) 0
  let rk4 := rk.getD p 0 ^^^ te421 temp ^^^ te432 temp ^^^ te443 temp ^^^ te414 temp ^^^ rcon i
  let rk5 := rk.getD (p + 1) 0 ^^^ rk4
  let rk6 := rk.getD (p + 2) 0 ^^^ rk5
  let rk7 := rk.getD (p + 3) 0 ^^^ rk6
  rk ++ [rk4, rk5, rk6, rk7]

/-- Round `i` for keys of 192 bits; the last round returns after four words. -/
def keySetup192 (rk : List Word) (i : ℕ) : List Word :=
  let p := 6 * i
  let temp := rk.getD (p + 5) 0
  let rk6 := rk.getD p 0 ^^^ te421 temp ^^^ te432 temp ^^^ te443 temp ^^^ te414 temp ^^^ rcon i
  let rk7 := rk.getD (p + 1) 0 ^^^ rk6
  let rk8 := rk.getD (p + 2) 0 ^^^ rk7
  let rk9 := rk.getD (p + 3) 0 ^^^ rk8
  if i = 7 then rk ++ [rk6, rk7, rk8, rk9]
  else
    let rk10 := rk.getD (p + 4) 0 ^^^ rk9
    let rk11 := rk.getD (p + 5) 0 ^^^ rk10
    rk ++ [rk6, rk7, rk8, rk9, rk10, rk11]

/-- Round `i` for keys of 256 bits; the last round returns after four words. -/
def keySetup256 (rk : List Word) (i : ℕ) : List Word :=
  let p := 8 * i
  let temp := rk.getD (p + 7) 0
  let rk8 := rk.getD p 0 ^^^ te421 temp ^^^ te432 temp ^^^ te443 temp ^^^ te414 temp ^^^ rcon i
  let rk9 := rk.getD (p + 1) 0 ^^^ rk8
  let rk10 := rk.getD (p + 2) 0 ^^^ rk9
  let rk11 := rk.getD (p + 3) 0 ^^^ rk10
  if i = 6 then rk ++ [rk8, rk9, rk10, rk11]
  else
    let temp := rk11
    let rk12 := rk.getD (p + 4) 0 ^^^ te411 temp ^^^ te422 temp ^^^ te433 temp ^^^ te444 temp
    let rk13 := rk.getD (p + 5) 0 ^^^ rk12
    let rk14 := rk.getD (p + 6) 0 ^^^ rk13
    let rk15 := rk.getD (p + 7) 0 ^^^ rk14
    rk ++ [rk8, rk9, rk10, rk11, rk12, rk13, rk14, rk15]

/-- The first `k` words of the key. -/
def keyWords (cipherKey : List Byte) (k : ℕ) : List Word :=
  (List.range k).map fun i => getu32 cipherKey (4 * i)

/-- `rijndaelKeySetupEnc`: the round keys, and the number of rounds. -/
def rijndaelKeySetupEnc (cipherKey : List Byte) (keyBits : ℕ) : Option (List Word × ℕ) :=
  if keyBits = 128 then
    some ((List.range 10).foldl keySetup128 (keyWords cipherKey 4), 10)
  else if keyBits = 192 then
    some ((List.range 8).foldl keySetup192 (keyWords cipherKey 6), 12)
  else if keyBits = 256 then
    some ((List.range 7).foldl keySetup256 (keyWords cipherKey 8), 14)
  else
    none

/-- The four words of the state. -/
structure Words where
  s0 : Word
  s1 : Word
  s2 : Word
  s3 : Word
  deriving DecidableEq, Repr

/-- `ROUND`, with the round key from word `p` of `rk` on. -/
def round (rk : List Word) (p : ℕ) (s : Words) : Words where
  s0 := te0 s.s0 ^^^ te1 s.s1 ^^^ te2 s.s2 ^^^ te3 s.s3 ^^^ rk.getD p 0
  s1 := te0 s.s1 ^^^ te1 s.s2 ^^^ te2 s.s3 ^^^ te3 s.s0 ^^^ rk.getD (p + 1) 0
  s2 := te0 s.s2 ^^^ te1 s.s3 ^^^ te2 s.s0 ^^^ te3 s.s1 ^^^ rk.getD (p + 2) 0
  s3 := te0 s.s3 ^^^ te1 s.s0 ^^^ te2 s.s1 ^^^ te3 s.s2 ^^^ rk.getD (p + 3) 0

/-- The loop of `rijndaelEncrypt` over two rounds at a time, the first of which is left in the
middle of the loop; `r + 1` is the counter, and `p` is where `rk` points to. -/
def roundLoop (rk : List Word) : ℕ → ℕ → Words → Words × ℕ
  | 0, p, s => (round rk (p + 4) s, p + 8)
  | r + 1, p, s => roundLoop rk r (p + 8) (round rk (p + 8) (round rk (p + 4) s))

/-- The block as the words of the state, with the first round key added. -/
def mapBlock (rk : List Word) (pt : List Byte) : Words where
  s0 := getu32 pt 0 ^^^ rk.getD 0 0
  s1 := getu32 pt 4 ^^^ rk.getD 1 0
  s2 := getu32 pt 8 ^^^ rk.getD 2 0
  s3 := getu32 pt 12 ^^^ rk.getD 3 0

/-- The last round, with the round key from word `p` of `rk` on. -/
def lastRound (rk : List Word) (p : ℕ) (t : Words) : List Byte :=
  putu32 (te41 t.s0 ^^^ te42 t.s1 ^^^ te43 t.s2 ^^^ te44 t.s3 ^^^ rk.getD p 0) ++
  putu32 (te41 t.s1 ^^^ te42 t.s2 ^^^ te43 t.s3 ^^^ te44 t.s0 ^^^ rk.getD (p + 1) 0) ++
  putu32 (te41 t.s2 ^^^ te42 t.s3 ^^^ te43 t.s0 ^^^ te44 t.s1 ^^^ rk.getD (p + 2) 0) ++
  putu32 (te41 t.s3 ^^^ te42 t.s0 ^^^ te43 t.s1 ^^^ te44 t.s2 ^^^ rk.getD (p + 3) 0)

/-- `rijndaelEncrypt`, for an even number of rounds that is not zero. -/
def rijndaelEncrypt (rk : List Word) (nr : ℕ) (pt : Block 16) : Block 16 :=
  let (t, p) := roundLoop rk (nr / 2 - 1) 0 (mapBlock rk pt.toList)
  ofBytes 16 (lastRound rk p t)

/-- `aes_encrypt_init`, where there is memory for the round keys. -/
def aesEncryptInit (key : List Byte) : Option (List Word × ℕ) :=
  rijndaelKeySetupEnc key (key.length * 8)

/-- `aes_encrypt`. -/
def aesEncrypt (ctx : List Word × ℕ) (plain : Block 16) : Block 16 :=
  rijndaelEncrypt ctx.1 ctx.2 plain

/-! ## Columns of words -/

/-- The bytes of a word, the highest first. -/
def column (w : Word) : Rijndael.Column := fun r => (w >>> (24 - 8 * r.val)).setWidth 8

theorem getLsbD_column (w : Word) (r : Fin 4) {i : ℕ} (hi : i < 8) :
    (column w r).getLsbD i = w.getLsbD (24 - 8 * r + i) := by
  rw [column, BitVec.getLsbD_setWidth, BitVec.getLsbD_ushiftRight, decide_eq_true hi,
    Bool.true_and]

@[simp]
theorem column_xor (v w : Word) (r : Fin 4) : column (v ^^^ w) r = column v r ^^^ column w r := by
  rw [column, BitVec.ushiftRight_xor_distrib, BitVec.setWidth_xor]
  rfl

theorem column_rotr (v : Word) {k : ℕ} (hk : 0 < k) (hk' : k < 4) (r : Fin 4) :
    column (rotr v (8 * k)) r = column v ⟨(r + (4 - k)) % 4, Nat.mod_lt _ (Nat.succ_pos 3)⟩ := by
  apply BitVec.eq_of_getLsbD_eq
  intro i hi
  have hr := r.isLt
  rw [getLsbD_column _ _ hi, getLsbD_column _ _ hi, rotr, BitVec.getLsbD_or,
    BitVec.getLsbD_ushiftRight, BitVec.getLsbD_shiftLeft]
  by_cases h : r.val < k
  · -- the byte comes from the low end of the word
    rw [BitVec.getLsbD_of_ge _ _ (show 32 ≤ 8 * k + (24 - 8 * r.val + i) by omega), Bool.false_or,
      decide_eq_true (show 24 - 8 * r.val + i < 32 by omega),
      decide_eq_false (show ¬ 24 - 8 * r.val + i < 32 - 8 * k by omega)]
    simp only [Bool.not_false, Bool.true_and]
    congr 1
    omega
  · rw [decide_eq_true (show 24 - 8 * r.val + i < 32 - 8 * k by omega)]
    simp only [Bool.not_true, Bool.and_false, Bool.false_and, Bool.or_false]
    congr 1
    omega

/-- One of the four bytes is kept. -/
theorem column_and_mask (v : Word) (k r : Fin 4) :
    column (v &&& (0xff000000#32 >>> (8 * k.val))) r = if r = k then column v r else 0 := by
  apply BitVec.eq_of_getLsbD_eq
  intro i hi
  have hmask : ∀ (k r : Fin 4) (i : Fin 8),
      (0xff000000#32 >>> (8 * k.val)).getLsbD (24 - 8 * r + i) = decide (r = k) := by
    decide +kernel
  rw [getLsbD_column _ _ hi, BitVec.getLsbD_and, hmask k r ⟨i, hi⟩]
  by_cases h : r = k
  · rw [decide_eq_true h, Bool.and_true, if_pos h, getLsbD_column _ _ hi]
  · rw [decide_eq_false h, Bool.and_false, if_neg h]
    exact BitVec.getLsbD_zero.symm

theorem column_shiftLeft (v : Word) : column (v <<< 8) 0 = column v 1 := by
  apply BitVec.eq_of_getLsbD_eq
  intro i hi
  rw [getLsbD_column _ _ hi, getLsbD_column _ _ hi, BitVec.getLsbD_shiftLeft]
  simp only [Fin.val_zero, Fin.val_one]
  rw [decide_eq_true (by omega), decide_eq_false (by omega)]
  simp only [Bool.not_false, Bool.true_and]
  congr 1
  omega

theorem column_ushiftRight (v : Word) : column (v >>> 8) 3 = column v 2 := by
  apply BitVec.eq_of_getLsbD_eq
  intro i hi
  rw [getLsbD_column _ _ hi, getLsbD_column _ _ hi, BitVec.getLsbD_ushiftRight]
  simp only [Fin.val_two]
  congr 1
  rw [← Nat.add_assoc]
  rfl

/-! ## The table -/

/-- The coefficient of the mixing matrix, `k` rows below the diagonal. -/
def coef (k : Fin 4) (b : Byte) : Byte :=
  if k = 0 then Rijndael.mul 2 b else if k = 3 then Rijndael.mul 3 b else b

/-- A word of the table is a column of the mixing matrix, times its second byte. -/
theorem column_te0Table : ∀ (i : Fin 256) (r : Fin 4),
    column (te0Table.getD i 0) r = coef r (column (te0Table.getD i 0) 1) := by
  decide +kernel

theorem column_te0Table_one : ∀ i : Fin 256,
    column (te0Table.getD i 0) 1 = Rijndael.sbox (BitVec.ofFin i) := by
  decide +kernel

theorem and_ff (x : Word) : x &&& 0xff = (x.setWidth 8).setWidth 32 := by
  apply BitVec.eq_of_toNat_eq
  have hlt : x.toNat % 2 ^ 8 < 2 ^ 32 := (Nat.mod_lt _ (by decide)).trans (by decide)
  rw [BitVec.toNat_and, BitVec.toNat_setWidth, BitVec.toNat_setWidth, Nat.mod_eq_of_lt hlt]
  exact Nat.and_two_pow_sub_one_eq_mod x.toNat 8

/-- The table at byte `k` of a word. -/
theorem column_te0At (w : Word) (k r : Fin 4) :
    column (te0At ((w >>> (24 - 8 * k.val)) &&& 0xff)) r =
      coef r (Rijndael.sbox (column w k)) := by
  have htable := column_te0Table (column w k).toFin r
  rw [column_te0Table_one] at htable
  rw [and_ff, te0At, BitVec.toNat_setWidth, Nat.mod_eq_of_lt ((BitVec.isLt _).trans (by decide))]
  exact htable

theorem column_te0 (w : Word) (r : Fin 4) :
    column (te0 w) r = coef r (Rijndael.sbox (column w 0)) :=
  column_te0At w 0 r

theorem column_te1 (w : Word) (r : Fin 4) :
    column (te1 w) r = coef (r + 3) (Rijndael.sbox (column w 1)) := by
  rw [te1, column_rotr _ (k := 1) (by decide) (by decide)]
  exact column_te0At w 1 (r + 3)

theorem column_te2 (w : Word) (r : Fin 4) :
    column (te2 w) r = coef (r + 2) (Rijndael.sbox (column w 2)) := by
  rw [te2, column_rotr _ (k := 2) (by decide) (by decide)]
  exact column_te0At w 2 (r + 2)

theorem column_te3 (w : Word) (r : Fin 4) :
    column (te3 w) r = coef (r + 1) (Rijndael.sbox (column w 3)) := by
  rw [te3, column_rotr _ (k := 3) (by decide) (by decide)]
  exact column_te0At w 3 (r + 1)

/-! ### The substitution alone -/

theorem row_cases (r : Fin 4) : r = 0 ∨ r = 1 ∨ r = 2 ∨ r = 3 := by
  revert r
  decide

section Substitution

variable (w : Word) (k r : Fin 4)

theorem column_sub0 : column ((te0At ((w >>> (24 - 8 * k.val)) &&& 0xff) <<< 8) &&& 0xff000000) r =
    if r = 0 then Rijndael.sbox (column w k) else 0 := by
  have hmask := column_and_mask (te0At ((w >>> (24 - 8 * k.val)) &&& 0xff) <<< 8) 0 r
  refine hmask.trans ?_
  by_cases hr : r = 0
  · rw [if_pos hr, if_pos hr, hr, column_shiftLeft]
    exact column_te0At w k 1
  · rw [if_neg hr, if_neg hr]

theorem column_sub1 : column (te0At ((w >>> (24 - 8 * k.val)) &&& 0xff) &&& 0x00ff0000) r =
    if r = 1 then Rijndael.sbox (column w k) else 0 := by
  have hmask := column_and_mask (te0At ((w >>> (24 - 8 * k.val)) &&& 0xff)) 1 r
  refine hmask.trans ?_
  by_cases hr : r = 1
  · rw [if_pos hr, if_pos hr, hr]
    exact column_te0At w k 1
  · rw [if_neg hr, if_neg hr]

theorem column_sub2 : column (te0At ((w >>> (24 - 8 * k.val)) &&& 0xff) &&& 0x0000ff00) r =
    if r = 2 then Rijndael.sbox (column w k) else 0 := by
  have hmask := column_and_mask (te0At ((w >>> (24 - 8 * k.val)) &&& 0xff)) 2 r
  refine hmask.trans ?_
  by_cases hr : r = 2
  · rw [if_pos hr, if_pos hr, hr]
    exact column_te0At w k 2
  · rw [if_neg hr, if_neg hr]

theorem column_sub3 : column ((te0At ((w >>> (24 - 8 * k.val)) &&& 0xff) >>> 8) &&& 0x000000ff) r =
    if r = 3 then Rijndael.sbox (column w k) else 0 := by
  have hmask := column_and_mask (te0At ((w >>> (24 - 8 * k.val)) &&& 0xff) >>> 8) 3 r
  refine hmask.trans ?_
  by_cases hr : r = 3
  · rw [if_pos hr, if_pos hr, hr, column_ushiftRight]
    exact column_te0At w k 2
  · rw [if_neg hr, if_neg hr]

end Substitution

/-- The four masked words of the last round. -/
theorem column_te4 (w : Fin 4 → Word) (r : Fin 4) :
    column (te41 (w 0) ^^^ te42 (w 1) ^^^ te43 (w 2) ^^^ te44 (w 3)) r =
      Rijndael.sbox (column (w r) r) := by
  have h0 : column (te41 (w 0)) r = _ := column_sub0 (w 0) 0 r
  have h1 : column (te42 (w 1)) r = _ := column_sub1 (w 1) 1 r
  have h2 : column (te43 (w 2)) r = _ := column_sub2 (w 2) 2 r
  have h3 : column (te44 (w 3)) r = _ := column_sub3 (w 3) 3 r
  rw [column_xor, column_xor, column_xor, h0, h1, h2, h3]
  rcases row_cases r with rfl | rfl | rfl | rfl <;> simp

/-- `TE421`, `TE432`, `TE443` and `TE414` substitute the rotated word. -/
theorem column_rotSub (w : Word) :
    column (te421 w ^^^ te432 w ^^^ te443 w ^^^ te414 w) =
      Rijndael.subWord (Rijndael.rotWord (column w)) := by
  ext r : 1
  have h0 : column (te421 w) r = _ := column_sub0 w 1 r
  have h1 : column (te432 w) r = _ := column_sub1 w 2 r
  have h2 : column (te443 w) r = _ := column_sub2 w 3 r
  have h3 : column (te414 w) r = _ := column_sub3 w 0 r
  rw [column_xor, column_xor, column_xor, h0, h1, h2, h3, Rijndael.subWord, Rijndael.rotWord]
  rcases row_cases r with rfl | rfl | rfl | rfl <;> simp

/-- `TE411`, `TE422`, `TE433` and `TE444` substitute the word. -/
theorem column_sub (w : Word) :
    column (te411 w ^^^ te422 w ^^^ te433 w ^^^ te444 w) = Rijndael.subWord (column w) := by
  ext r : 1
  exact column_te4 (fun _ => w) r

theorem column_rcon {i : ℕ} (hi : i < 10) (r : Fin 4) :
    column (rcon i) r = Rijndael.rcon (i + 1) r := by
  have h : ∀ (i : Fin 10) (r : Fin 4), column (rcon i) r = Rijndael.rcon (i.val + 1) r := by
    decide +kernel
  exact h ⟨i, hi⟩ r

/-! ## Rounds -/

/-- A byte that is put in place `k` of a word. -/
theorem column_place (b : Byte) (k r : Fin 4) :
    column (b.setWidth 32 <<< (24 - 8 * k.val)) r = if r = k then b else 0 := by
  apply BitVec.eq_of_getLsbD_eq
  intro i hi
  have hk := k.isLt
  have hr := r.isLt
  rw [getLsbD_column _ _ hi, BitVec.getLsbD_shiftLeft, BitVec.getLsbD_setWidth]
  rcases Nat.lt_trichotomy r.val k.val with h | h | h
  · -- above the byte
    rw [if_neg (fun he => by rw [he] at h; omega), BitVec.getLsbD_of_ge b _ (by omega),
      Bool.and_false, Bool.and_false]
    exact BitVec.getLsbD_zero.symm
  · rw [if_pos (Fin.ext h), decide_eq_true (by omega), decide_eq_false (by omega),
      decide_eq_true (by omega), Bool.not_false, Bool.true_and, Bool.true_and, Bool.true_and]
    congr 1
    omega
  · rw [if_neg (fun he => by rw [he] at h; omega), decide_eq_true (p := _ < 24 - _) (by omega),
      Bool.not_true, Bool.and_false, Bool.false_and]
    exact BitVec.getLsbD_zero.symm

theorem column_getu32 (pt : List Byte) (off : ℕ) (r : Fin 4) :
    column (getu32 pt off) r = pt.getD (off + r) 0 := by
  have h0 := column_place (pt.getD off 0) 0 r
  have h1 := column_place (pt.getD (off + 1) 0) 1 r
  have h2 := column_place (pt.getD (off + 2) 0) 2 r
  have h3 := column_place (pt.getD (off + 3) 0) 3 r
  rw [show 24 - 8 * (3 : Fin 4).val = 0 from rfl, BitVec.shiftLeft_zero] at h3
  rw [getu32, column_xor, column_xor, column_xor]
  refine (congrArg₂ _ (congrArg₂ _ (congrArg₂ _ h0 h1) h2) h3).trans ?_
  rcases row_cases r with rfl | rfl | rfl | rfl <;> simp

/-- The words of the state. -/
def Words.get (s : Words) (c : Fin 4) : Word :=
  if c = 0 then s.s0 else if c = 1 then s.s1 else if c = 2 then s.s2 else s.s3

/-- The state as columns of bytes. -/
def Words.state (s : Words) : Rijndael.State := fun c => column (s.get c)

/-- The key schedule in the words `rk`. -/
def schedule (rk : List Word) (i : ℕ) : Rijndael.Column := column (rk.getD i 0)

theorem get_round (rk : List Word) (p : ℕ) (s : Words) (c : Fin 4) :
    (round rk p s).get c = te0 (s.get c) ^^^ te1 (s.get (c + 1)) ^^^ te2 (s.get (c + 2)) ^^^
      te3 (s.get (c + 3)) ^^^ rk.getD (p + c) 0 := by
  rcases row_cases c with rfl | rfl | rfl | rfl <;> rfl

/-- Below the diagonal the matrix has a one, twice, and above it a three: each row of the mixed
column is the sum of the same four bytes, in another order. -/
theorem mixColumn_coef (a : Rijndael.Column) (r : Fin 4) :
    coef r (a 0) ^^^ coef (r + 3) (a 1) ^^^ coef (r + 2) (a 2) ^^^ coef (r + 1) (a 3) =
      Rijndael.mixColumn a r := by
  rw [Rijndael.mixColumn]
  rcases row_cases r with rfl | rfl | rfl | rfl <;>
    simp only [coef, Fin.isValue, reduceIte, Fin.reduceAdd, Fin.reduceEq] <;>
    ac_rfl

theorem state_round (rk : List Word) (k : ℕ) (s : Words) :
    (round rk (4 * k) s).state = Rijndael.addRoundKey (schedule rk) k
      (Rijndael.mixColumns (Rijndael.shiftRows (Rijndael.subBytes s.state))) := by
  ext c r : 2
  rw [Words.state, get_round]
  simp only [column_xor, column_te0, column_te1, column_te2, column_te3, Rijndael.addRoundKey,
    Rijndael.mixColumns, schedule]
  rw [← mixColumn_coef]
  simp only [Rijndael.shiftRows, Rijndael.subBytes, Words.state, Fin.add_zero]

/-- The rounds of the loop, from the state before round `k`. -/
theorem state_roundLoop (rk : List Word) (pt : Rijndael.State) (r k : ℕ) {s : Words}
    (hs : s.state = Rijndael.rounds (schedule rk) pt k) :
    (roundLoop rk r (4 * k) s).1.state = Rijndael.rounds (schedule rk) pt (k + 2 * r + 1) ∧
      (roundLoop rk r (4 * k) s).2 = 4 * (k + 2 * r + 2) := by
  induction r generalizing k s with
  | zero =>
    have hround := state_round rk (k + 1) s
    rw [hs, Nat.mul_succ] at hround
    exact ⟨hround, by rw [roundLoop]; omega⟩
  | succ r ih =>
    have h1 := state_round rk (k + 1) s
    have h2 := state_round rk (k + 2) (round rk (4 * (k + 1)) s)
    rw [h1, hs] at h2
    have h := ih (k + 2) h2
    rw [roundLoop, show k + 2 * (r + 1) = k + 2 + 2 * r by omega]
    exact h

/-- The bytes of a block, column by column. -/
def blockState (b : Block 16) : Rijndael.State := fun c r => b.toList.getD (4 * c + r) 0

theorem getD_putu32 (w : Fin 4 → Word) (c r : Fin 4) :
    (putu32 (w 0) ++ putu32 (w 1) ++ putu32 (w 2) ++ putu32 (w 3)).getD (4 * c + r) 0 =
      column (w c) r := by
  rcases row_cases c with rfl | rfl | rfl | rfl <;>
    rcases row_cases r with rfl | rfl | rfl | rfl <;> rfl

theorem blockState_ofBytes (l : List Byte) (c r : Fin 4) :
    blockState (ofBytes 16 l) c r = l.getD (4 * c + r) 0 := by
  have h : 4 * c.val + r.val < 16 := by omega
  rw [blockState, List.getD_eq_getElem?_getD, Vector.getElem?_toList, Vector.getElem?_eq_getElem h,
    Option.getD_some, getElem_ofBytes l h]

theorem state_mapBlock (rk : List Word) (pt : Block 16) :
    (mapBlock rk pt.toList).state = Rijndael.rounds (schedule rk) (blockState pt) 0 := by
  have hget (c : Fin 4) :
      (mapBlock rk pt.toList).get c = getu32 pt.toList (4 * c) ^^^ rk.getD c 0 := by
    rcases row_cases c with rfl | rfl | rfl | rfl <;> rfl
  ext c r : 2
  rw [Words.state, hget, column_xor, column_getu32, Rijndael.rounds, Rijndael.addRoundKey,
    blockState, schedule, Nat.mul_zero, Nat.zero_add]

theorem blockState_lastRound (rk : List Word) (k : ℕ) (t : Words) :
    blockState (ofBytes 16 (lastRound rk (4 * k) t)) = Rijndael.addRoundKey (schedule rk) k
      (Rijndael.shiftRows (Rijndael.subBytes t.state)) := by
  ext c r : 2
  have hbyte := getD_putu32 (fun c => te41 (t.get c) ^^^ te42 (t.get (c + 1)) ^^^
    te43 (t.get (c + 2)) ^^^ te44 (t.get (c + 3)) ^^^ rk.getD (4 * k + c) 0) c r
  rw [blockState_ofBytes]
  refine hbyte.trans ?_
  have hsub := column_te4 (fun r => t.get (c + r)) r
  rw [Fin.add_zero] at hsub
  rw [column_xor, hsub]
  rfl

/-- `rijndaelEncrypt` is the cipher, with the key schedule in the words `rk`. -/
theorem blockState_rijndaelEncrypt (rk : List Word) (r : ℕ) (pt : Block 16) :
    blockState (rijndaelEncrypt rk (2 * r + 2) pt) =
      Rijndael.cipher (2 * r + 2) (schedule rk) (blockState pt) := by
  have hr : (2 * r + 2) / 2 - 1 = r := by omega
  obtain ⟨hstate, hp⟩ := state_roundLoop rk (blockState pt) r 0 (state_mapBlock rk pt)
  rw [Nat.zero_add] at hstate hp
  rw [rijndaelEncrypt, hr, Rijndael.cipher, show 2 * r + 2 - 1 = 2 * r + 1 by omega, ← hstate]
  dsimp only
  rw [← Nat.mul_zero 4, hp, blockState_lastRound]

/-! ## The key setup -/

section KeySetup

variable {key : List Byte} {nk : ℕ}

/-- The words of the key. -/
def keyColumn (key : List Byte) (i : ℕ) : Rijndael.Column := fun r => key.getD (4 * i + r) 0

/-- The words written so far are the first `n` ones of the key schedule. -/
structure Agrees (key : List Byte) (nk : ℕ) (rk : List Word) (n : ℕ) : Prop where
  length : rk.length = n
  word : ∀ i < n, column (rk.getD i 0) = Rijndael.expand (keyColumn key) nk i

theorem agrees_keyWords (key : List Byte) (nk : ℕ) : Agrees key nk (keyWords key nk) nk := by
  refine ⟨by rw [keyWords, List.length_map, List.length_range], fun i hi => ?_⟩
  rw [Rijndael.expand_of_lt _ hi, keyWords, List.getD_eq_getElem?_getD, List.getElem?_map,
    List.getElem?_range hi]
  ext r : 1
  exact column_getu32 key (4 * i) r

/-- One more word. -/
theorem Agrees.append {rk : List Word} {n : ℕ} (h : Agrees key nk rk n) {w : Word}
    (hw : column w = Rijndael.expand (keyColumn key) nk n) : Agrees key nk (rk ++ [w]) (n + 1) := by
  refine ⟨by rw [List.length_append, h.length, List.length_singleton], fun i hi => ?_⟩
  rw [List.getD_eq_getElem?_getD]
  rcases Nat.lt_succ_iff_lt_or_eq.mp hi with hi | rfl
  · rw [List.getElem?_append_left (h.length ▸ hi), ← List.getD_eq_getElem?_getD, h.word i hi]
  · rw [List.getElem?_append_right (Nat.le_of_eq h.length), h.length, Nat.sub_self]
    exact hw

/-- The first word of a group: the last word is rotated and substituted. -/
theorem expand_first (hnk : 0 < nk) {rk : List Word} {i : ℕ} (h : Agrees key nk rk (nk * (i + 1)))
    (hi : i < 10) {temp : Word} (htemp : temp = rk.getD (nk * i + (nk - 1)) 0) :
    column (rk.getD (nk * i) 0 ^^^ te421 temp ^^^ te432 temp ^^^ te443 temp ^^^ te414 temp ^^^
        rcon i) = Rijndael.expand (keyColumn key) nk (nk * (i + 1)) := by
  have hfirst := h.word (nk * i) (by rw [Nat.mul_succ]; omega)
  have hlast := h.word (nk * i + (nk - 1)) (by rw [Nat.mul_succ]; omega)
  rw [← htemp] at hlast
  rw [Nat.mul_succ, Rijndael.expand_add _ hnk, Rijndael.temp, if_pos (by simp), ← hfirst,
    show nk * i + nk - 1 = nk * i + (nk - 1) by omega, ← hlast, ← column_rotSub]
  ext r : 1
  have hround : (nk * i + nk) / nk = i + 1 := by
    rw [← Nat.mul_succ, Nat.mul_div_cancel_left _ hnk]
  rw [hround, ← column_rcon hi]
  simp only [column_xor, BitVec.xor_assoc]

/-- A word that is only added. -/
theorem expand_next (hnk : 0 < nk) {rk : List Word} {i j : ℕ}
    (h : Agrees key nk rk (nk * (i + 1))) (hj : j + 1 < nk) (hmiddle : ¬(6 < nk ∧ j + 1 = 4))
    {w : Word} (hw : column w = Rijndael.expand (keyColumn key) nk (nk * (i + 1) + j)) :
    column (rk.getD (nk * i + (j + 1)) 0 ^^^ w) =
      Rijndael.expand (keyColumn key) nk (nk * (i + 1) + (j + 1)) := by
  have hword := h.word (nk * i + (j + 1)) (by rw [Nat.mul_succ]; omega)
  have hmod : (nk * i + (j + 1) + nk) % nk = j + 1 := by
    rw [Nat.add_mod_right, Nat.mul_add_mod, Nat.mod_eq_of_lt hj]
  rw [Nat.mul_succ, show nk * i + nk + (j + 1) = nk * i + (j + 1) + nk by omega,
    Rijndael.expand_add _ hnk, Rijndael.temp_of_ne (by omega) (by rwa [hmod]), ← hword,
    show nk * i + (j + 1) + nk - 1 = nk * (i + 1) + j by rw [Nat.mul_succ]; omega, ← hw]
  ext r : 1
  exact column_xor _ _ r

theorem agrees_keySetup128 {rk : List Word} {i : ℕ} (h : Agrees key 4 rk (4 * (i + 1)))
    (hi : i < 10) : Agrees key 4 (keySetup128 rk i) (4 * (i + 2)) := by
  have h4 := expand_first (by decide) h hi rfl
  have h5 := expand_next (by decide) h (j := 0) (by decide) (by decide) h4
  have h6 := expand_next (by decide) h (j := 1) (by decide) (by decide) h5
  have h7 := expand_next (by decide) h (j := 2) (by decide) (by decide) h6
  have hall := (((h.append h4).append h5).append h6).append h7
  simp only [List.append_assoc, List.singleton_append] at hall
  exact hall

/-- The last round writes four words, the other ones write six. -/
theorem agrees_keySetup192 {rk : List Word} {i : ℕ} (h : Agrees key 6 rk (6 * (i + 1)))
    (hi : i < 8) :
    Agrees key 6 (keySetup192 rk i) (if i = 7 then 52 else 6 * (i + 2)) := by
  have h6 := expand_first (by decide) h (by omega) rfl
  have h7 := expand_next (by decide) h (j := 0) (by decide) (by decide) h6
  have h8 := expand_next (by decide) h (j := 1) (by decide) (by decide) h7
  have h9 := expand_next (by decide) h (j := 2) (by decide) (by decide) h8
  have hfour := (((h.append h6).append h7).append h8).append h9
  by_cases hlast : i = 7
  · simp only [List.append_assoc, List.singleton_append] at hfour
    subst hlast
    exact hfour
  · have h10 := expand_next (by decide) h (j := 3) (by decide) (by decide) h9
    have h11 := expand_next (by decide) h (j := 4) (by decide) (by decide) h10
    have hall := (hfour.append h10).append h11
    simp only [List.append_assoc, List.singleton_append] at hall
    rw [keySetup192, if_neg hlast, if_neg hlast]
    exact hall

/-- The middle word of a group of eight is substituted. -/
theorem expand_middle {rk : List Word} {i : ℕ} (h : Agrees key 8 rk (8 * (i + 1))) {w : Word}
    (hw : column w = Rijndael.expand (keyColumn key) 8 (8 * (i + 1) + 3)) :
    column (rk.getD (8 * i + 4) 0 ^^^ te411 w ^^^ te422 w ^^^ te433 w ^^^ te444 w) =
      Rijndael.expand (keyColumn key) 8 (8 * (i + 1) + 4) := by
  have hword := h.word (8 * i + 4) (by omega)
  rw [show 8 * (i + 1) + 4 = 8 * i + 4 + 8 by omega, Rijndael.expand_add _ (by decide),
    Rijndael.temp, if_neg (by omega), if_pos (by omega), ← hword,
    show 8 * i + 4 + 8 - 1 = 8 * (i + 1) + 3 by omega, ← hw, ← column_sub]
  ext r : 1
  simp only [column_xor, BitVec.xor_assoc]

/-- The last round writes four words, the other ones write eight. -/
theorem agrees_keySetup256 {rk : List Word} {i : ℕ} (h : Agrees key 8 rk (8 * (i + 1)))
    (hi : i < 7) :
    Agrees key 8 (keySetup256 rk i) (if i = 6 then 60 else 8 * (i + 2)) := by
  have h8 := expand_first (by decide) h (by omega) rfl
  have h9 := expand_next (by decide) h (j := 0) (by decide) (by decide) h8
  have h10 := expand_next (by decide) h (j := 1) (by decide) (by decide) h9
  have h11 := expand_next (by decide) h (j := 2) (by decide) (by decide) h10
  have hfour := (((h.append h8).append h9).append h10).append h11
  by_cases hlast : i = 6
  · simp only [List.append_assoc, List.singleton_append] at hfour
    subst hlast
    exact hfour
  · have h12 := expand_middle h h11
    have h13 := expand_next (by decide) h (j := 4) (by decide) (by decide) h12
    have h14 := expand_next (by decide) h (j := 5) (by decide) (by decide) h13
    have h15 := expand_next (by decide) h (j := 6) (by decide) (by decide) h14
    have hall := (((hfour.append h12).append h13).append h14).append h15
    simp only [List.append_assoc, List.singleton_append] at hall
    rw [keySetup256, if_neg hlast, if_neg hlast]
    exact hall

/-- The rounds of the key setup, of which the last one may write fewer words. -/
theorem agrees_foldl (key : List Byte) (nk : ℕ) (f : List Word → ℕ → List Word) (m last : ℕ)
    (hstep : ∀ rk i, i < m + 1 → Agrees key nk rk (nk * (i + 1)) →
      Agrees key nk (f rk i) (if i = m then last else nk * (i + 2))) :
    Agrees key nk ((List.range (m + 1)).foldl f (keyWords key nk)) last := by
  have hrounds (k : ℕ) (hk : k ≤ m) :
      Agrees key nk ((List.range k).foldl f (keyWords key nk)) (nk * (k + 1)) := by
    induction k with
    | zero =>
      rw [Nat.zero_add, Nat.mul_one]
      exact agrees_keyWords key nk
    | succ k ih =>
      have h := hstep _ k (by omega) (ih (by omega))
      rw [if_neg (by omega)] at h
      rwa [List.range_succ, List.foldl_append, List.foldl_cons, List.foldl_nil]
  have h := hstep _ m (by omega) (hrounds m (Nat.le_refl m))
  rw [if_pos rfl] at h
  rwa [List.range_succ, List.foldl_append, List.foldl_cons, List.foldl_nil]

end KeySetup

/-- Only the words of the round keys matter. -/
theorem cipher_congr {w w' : ℕ → Rijndael.Column} {nr : ℕ} (h : ∀ i < 4 * (nr + 1), w i = w' i)
    (s : Rijndael.State) : Rijndael.cipher nr w s = Rijndael.cipher nr w' s := by
  have hadd (k : ℕ) (hk : k ≤ nr) (s : Rijndael.State) :
      Rijndael.addRoundKey w k s = Rijndael.addRoundKey w' k s := by
    ext c r : 2
    rw [Rijndael.addRoundKey, Rijndael.addRoundKey, h _ (by omega)]
  have hrounds (k : ℕ) (hk : k ≤ nr) : Rijndael.rounds w s k = Rijndael.rounds w' s k := by
    induction k with
    | zero => exact hadd 0 hk s
    | succ k ih =>
      rw [Rijndael.rounds, Rijndael.rounds, ih (by omega), hadd _ hk]
  rw [Rijndael.cipher, Rijndael.cipher, hrounds _ (by omega), hadd nr (Nat.le_refl nr)]

/-- With the words of the key schedule for its round keys, a block is encrypted by the cipher. -/
theorem blockState_of_agrees {key : List Byte} {nk r n : ℕ} {rk : List Word}
    (h : Agrees key nk rk n) (hn : n = 4 * (2 * r + 3)) (pt : Block 16) :
    blockState (rijndaelEncrypt rk (2 * r + 2) pt) =
      Rijndael.cipher (2 * r + 2) (Rijndael.expand (keyColumn key) nk) (blockState pt) := by
  rw [blockState_rijndaelEncrypt]
  exact cipher_congr (fun i hi => h.word i (by omega)) (blockState pt)

/-- A context is there for keys of 16, 24 and 32 bytes, and encryption with the table is the cipher
of the definition. -/
theorem aesEncrypt_eq_cipher (key : List Byte) (pt : Block 16) :
    (aesEncryptInit key).map (fun ctx => blockState (aesEncrypt ctx pt)) =
      if key.length = 16 ∨ key.length = 24 ∨ key.length = 32 then
        some (Rijndael.cipher (key.length / 4 + 6)
          (Rijndael.expand (keyColumn key) (key.length / 4)) (blockState pt))
      else none := by
  rw [aesEncryptInit, rijndaelKeySetupEnc]
  by_cases h128 : key.length = 16
  · have hwords := agrees_foldl key 4 keySetup128 9 44
      fun rk i hi h => by
        have hstep := agrees_keySetup128 h hi
        by_cases hlast : i = 9
        · rwa [hlast] at hstep ⊢
        · rwa [if_neg hlast]
    rw [if_pos (by omega), if_pos (Or.inl h128), Option.map_some, aesEncrypt, h128]
    exact congrArg some (blockState_of_agrees (r := 4) hwords rfl pt)
  · by_cases h192 : key.length = 24
    · have hwords := agrees_foldl key 6 keySetup192 7 52
        fun rk i hi h => agrees_keySetup192 h hi
      rw [if_neg (by omega), if_pos (by omega), if_pos (Or.inr (Or.inl h192)), Option.map_some,
        aesEncrypt, h192]
      exact congrArg some (blockState_of_agrees (r := 5) hwords rfl pt)
    · by_cases h256 : key.length = 32
      · have hwords := agrees_foldl key 8 keySetup256 6 60
          fun rk i hi h => agrees_keySetup256 h hi
        rw [if_neg (by omega), if_neg (by omega), if_pos (by omega),
          if_pos (Or.inr (Or.inr h256)), Option.map_some, aesEncrypt, h256]
        exact congrArg some (blockState_of_agrees (r := 6) hwords rfl pt)
      · rw [if_neg (by omega), if_neg (by omega), if_neg (by omega), if_neg (by omega),
          Option.map_none]

end Rtl88x2cu.Crypto
