import Rtl88x2cu.Crypto.Omac1

/-!
# Synthetic initialization vectors

`core/crypto/aes-siv.c`, with the counter mode of `core/crypto/aes-ctr.c`: the protection of mesh
peering frames. The initialization vector is the authentication value of up to five elements and the
plain text, and two of its bits are cleared before it is the first counter. The result of
`os_memdup` is not `NULL`, and no element has `2 ^ 31` bytes.
-/

namespace Rtl88x2cu.Crypto

open Bytes BlockMode

/-! ## Model -/

/-- The loop over a counter from its last byte on; it goes on to the byte before if the byte has
become zero. -/
def incBytes : List Byte → List Byte × Bool
  | [] => ([], true)
  | b :: bs =>
    let p := incBytes bs
    if p.2 then ((b + 1) :: p.1, b + 1 = 0) else (b :: p.1, false)

def incCounter (counter : Block 16) : Block 16 := ofBytes 16 (incBytes counter.toList).1

/-- `aes_ctr_encrypt`. -/
def aesCtrEncrypt (key : List Byte) (nonce : Block 16) (data : List Byte) : Option (List Byte) :=
  (aesEncryptInit key).map fun ctx =>
    crypt incCounter (aesEncrypt ctx) (data.length / 16) nonce data

/-- `dbl`, which does what `gf_mulx` does. -/
def dbl (pad : Block 16) : Block 16 := gfMulx pad

/-- `xorend`, for a block. -/
def xorend (a : List Byte) (b : Block 16) : List Byte :=
  if a.length < 16 then a else a.take (a.length - 16) ++ mask (a.drop (a.length - 16)) b

/-- `pad_block`. -/
def padBlock (addr : List Byte) : Block 16 :=
  ofBytes 16 (if addr.length < 16 then addr ++ [0x80] else addr)

/-- `aes_s2v`. -/
def aesS2v (key : List Byte) (addr : List (List Byte)) : Option (Block 16) :=
  match addr.getLast? with
  | none => omac1Aes key (List.replicate 15 0 ++ [1])
  | some last =>
    (omac1Aes key (List.replicate 16 0)).bind fun tmp =>
      (addr.dropLast.foldlM (fun tmp s =>
        (omac1Aes key s).map fun tmp2 => xorBlock (dbl tmp) tmp2) tmp).bind fun tmp =>
          if last.length ≥ 16 then omac1Aes key (xorend last tmp)
          else omac1Aes key (xorBlock (dbl tmp) (padBlock last)).toList

/-- `v[8] &= 0x7f; v[12] &= 0x7f`. -/
def sivCounter (v : Block 16) : Block 16 :=
  Vector.ofFn fun i => if i.val = 8 ∨ i.val = 12 then v[i] &&& 0x7f else v[i]

/-- The check of the arguments, for `ARRAY_SIZE(_addr) - 1` elements. -/
def sivArgsOk (keyLen numElem : ℕ) : Bool :=
  numElem ≤ 5 && (keyLen = 32 || keyLen = 48 || keyLen = 64)

/-- `aes_siv_encrypt`. -/
def aesSivEncrypt (key pw : List Byte) (addr : List (List Byte)) : Option (List Byte) :=
  if !sivArgsOk key.length addr.length then none
  else
    let k1 := key.take (key.length / 2)
    let k2 := key.drop (key.length / 2)
    (aesS2v k1 (addr ++ [pw])).bind fun v =>
      (aesCtrEncrypt k2 (sivCounter v) pw).map fun crypt => v.toList ++ crypt

/-- `aes_siv_decrypt`. -/
def aesSivDecrypt (key ivCrypt : List Byte) (addr : List (List Byte)) : Option (List Byte) :=
  if ivCrypt.length < 16 ∨ !sivArgsOk key.length addr.length then none
  else
    let k1 := key.take (key.length / 2)
    let k2 := key.drop (key.length / 2)
    let iv := ofBytes 16 ivCrypt
    (aesCtrEncrypt k2 (sivCounter iv) (ivCrypt.drop 16)).bind fun out =>
      (aesS2v k1 (addr ++ [out])).bind fun check =>
        if check.toList = ivCrypt.take 16 then some out else none

/-! ## Counter mode -/

/-- Encryption is its own inverse. -/
theorem aesCtrEncrypt_eq_some_iff (key : List Byte) (nonce : Block 16) (data crypt : List Byte) :
    aesCtrEncrypt key nonce data = some crypt ↔ aesCtrEncrypt key nonce crypt = some data := by
  rw [aesCtrEncrypt, aesCtrEncrypt]
  cases aesEncryptInit key with
  | none => exact iff_of_false (Option.some_ne_none _).symm (Option.some_ne_none _).symm
  | some ctx =>
    rw [Option.map_some, Option.map_some, Option.some.injEq, Option.some.injEq]
    exact crypt_crypt incCounter (aesEncrypt ctx) (by decide) nonce data crypt

/-! ## Decryption -/

/-- Decryption accepts a text, and gives a plain text, exactly if the plain text is encrypted to it,
for the same elements. -/
theorem aesSivDecrypt_eq_some_iff (key ivCrypt pw : List Byte) (addr : List (List Byte)) :
    aesSivDecrypt key ivCrypt addr = some pw ↔ aesSivEncrypt key pw addr = some ivCrypt := by
  rw [aesSivDecrypt, aesSivEncrypt]
  dsimp only
  cases hok : sivArgsOk key.length addr.length with
  | false => simp
  | true =>
    simp only [Bool.not_true, Bool.false_eq_true, or_false, reduceIte]
    rw [Option.ite_none_left_eq_some, Option.bind_eq_some_iff, Option.bind_eq_some_iff]
    constructor
    · rintro ⟨hlen, out, hout, h⟩
      obtain ⟨v, hv, h⟩ := Option.bind_eq_some_iff.mp h
      rw [Option.ite_none_right_eq_some, Option.some.injEq] at h
      obtain ⟨hcheck, rfl⟩ := h
      have hiv : ofBytes 16 ivCrypt = v := by
        rw [← List.take_append_drop 16 ivCrypt, ← hcheck, ofBytes_toList_append]
      rw [hiv, aesCtrEncrypt_eq_some_iff] at hout
      exact ⟨v, hv, by rw [hout, Option.map_some, hcheck, List.take_append_drop]⟩
    · rintro ⟨v, hv, h⟩
      obtain ⟨crypt, hcrypt, rfl⟩ := Option.map_eq_some_iff.mp h
      have hlen : v.toList.length = 16 := Vector.length_toList
      rw [List.length_append, ofBytes_toList_append, List.drop_left' hlen, List.take_left' hlen]
      refine ⟨by omega, pw, (aesCtrEncrypt_eq_some_iff _ _ _ _).mp hcrypt, ?_⟩
      rw [hv, Option.bind_some, if_pos rfl]

end Rtl88x2cu.Crypto
