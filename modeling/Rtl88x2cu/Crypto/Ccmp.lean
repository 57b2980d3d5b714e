import Rtl88x2cu.Crypto.AesCcm
import Rtl88x2cu.Crypto.FrameAad

/-!
# CCMP frames

`core/crypto/ccmp.c`, and `_rtw_ccmp_encrypt` and `_rtw_ccmp_decrypt` of `core/rtw_swcrypto.c`, which
work in place on a frame: a header, eight bytes with the packet number, the payload, and room for
the authentication value. The results of `rtw_malloc` are not `NULL`.

`rtwCcmpDecrypt_eq_some_iff` says that a frame is accepted exactly if it is the encryption of the
plain frame it is turned into.
-/

namespace Rtl88x2cu.Crypto

open Bytes BlockMode

/-! ## Model -/

/-- Nonces have thirteen bytes. -/
def ccmNonce (nonce : List Byte) : Vector Byte 13 := ofBytes 13 nonce

/-- `ccmp_encrypt` and `ccmp_256_encrypt`, for a key of `keyLen` bytes and an authentication value
of `M` bytes. -/
def ccmpEncryptWith (keyLen M : ℕ) (tk frame : List Byte) (len hdrlen : ℕ)
    (pn : Option (Vector Byte 6)) (keyid : Byte) : Option (List Byte) :=
  if len < hdrlen ∨ hdrlen < 24 then none
  else
    let p := frameStart frame (len - hdrlen) hdrlen pn keyid
    let crypt := setIswep p.1
    let a := ccmpAadNonce crypt (crypt.drop hdrlen)
    (aesCcmAe (tk.take keyLen) (ccmNonce a.2) M p.2 a.1).map fun c => crypt ++ (c.1 ++ c.2)

/-- `ccmp_decrypt` and `ccmp_256_decrypt`. -/
def ccmpDecryptWith (keyLen M : ℕ) (tk hdr data : List Byte) (dataLen : ℕ) : Option (List Byte) :=
  if dataLen < 8 + M then none
  else
    let mlen := dataLen - 8 - M
    let a := ccmpAadNonce hdr data
    aesCcmAd (tk.take keyLen) (ccmNonce a.2) M (slice data 8 mlen) a.1 (slice data (8 + mlen) M)

def ccmpEncrypt := ccmpEncryptWith 16 8

def ccmp256Encrypt := ccmpEncryptWith 32 16

def ccmpDecrypt := ccmpDecryptWith 16 8

def ccmp256Decrypt := ccmpDecryptWith 32 16

/-- `_rtw_ccmp_encrypt`; `none` is for `_FAIL`, which leaves the frame as it is. -/
def rtwCcmpEncrypt (key : List Byte) (keyLen hdrlen : ℕ) (frame : List Byte) (plen : ℕ) :
    Option (List Byte) :=
  let len := (hdrlen + plen) % 2 ^ 32
  let enc :=
    if keyLen = 16 then ccmpEncrypt key frame len hdrlen none 0
    else if keyLen = 32 then ccmp256Encrypt key frame len hdrlen none 0
    else none
  enc.map fun enc => memcpy frame 0 enc

/-- `_rtw_ccmp_decrypt`. -/
def rtwCcmpDecrypt (key : List Byte) (keyLen hdrlen : ℕ) (frame : List Byte) (plen : ℕ) :
    Option (List Byte) :=
  let dataLen := (plen + 2 ^ 32 - hdrlen) % 2 ^ 32
  let plain :=
    if keyLen = 16 then ccmpDecrypt key frame (frame.drop hdrlen) dataLen
    else if keyLen = 32 then ccmp256Decrypt key frame (frame.drop hdrlen) dataLen
    else none
  plain.map fun plain => memcpy frame (hdrlen + 8) plain

/-- The length of the authentication value, by that of the key. -/
def ccmpMicLen (keyLen : ℕ) : ℕ := if keyLen = 16 then 8 else 16

/-! ## Frames -/

theorem length_of_aesCcmAe {key : List Byte} {nonce : Vector Byte 13} {M : ℕ}
    {plain aad crypt auth : List Byte}
    (h : aesCcmAe key nonce M plain aad = some (crypt, auth)) :
    crypt.length = plain.length ∧ auth.length = M := by
  rw [aesCcmAe, Option.ite_none_left_eq_some] at h
  obtain ⟨hbounds, h⟩ := h
  obtain ⟨ctx, -, h⟩ := Option.bind_eq_some_iff.mp h
  rw [Option.some.injEq, Prod.mk.injEq] at h
  rw [← h.1, ← h.2, length_aesCcmEncr, length_aesCcmEncrAuth _ _ (by omega)]
  · exact ⟨rfl, rfl⟩
  · rw [Vector.length_toList]
    omega

section Frame

variable {key hdr iv body mic room : List Byte} {keyLen M : ℕ}

/-- Encryption of a frame that is given by its parts. -/
theorem ccmpEncryptWith_append (hhdr : 24 ≤ hdr.length) (hiv : iv.length = 8) (plain : List Byte) :
    ccmpEncryptWith keyLen M key (hdr ++ (iv ++ (plain ++ room))) (hdr.length + plain.length)
        hdr.length none 0 =
      (aesCcmAe (key.take keyLen) (ccmNonce (ccmpAadNonce (hdr ++ iv) iv).2) M plain
        (ccmpAadNonce (hdr ++ iv) iv).1).map fun c => setIswep hdr ++ (iv ++ (c.1 ++ c.2)) := by
  have hset : setIswep (hdr ++ iv) = setIswep hdr ++ iv := setIswep_append (by omega)
  have hdrop : (setIswep hdr ++ iv).drop hdr.length = iv := by
    rw [← length_setIswep (show 2 ≤ hdr.length by omega), List.drop_left]
  have hlen : 32 ≤ (hdr ++ iv).length := by
    rw [List.length_append]
    omega
  have haad : ccmpAadNonce (setIswep hdr ++ iv) iv = ccmpAadNonce (hdr ++ iv) iv := by
    rw [← hset]
    refine (ccmpAadNonce_congr hlen ?_ (sameHeader_setIswep _) rfl).symm
    rwa [length_setIswep (by omega)]
  rw [ccmpEncryptWith, if_neg (by omega), Nat.add_sub_cancel_left, frameStart_none hiv]
  dsimp only
  rw [hset, hdrop, haad]
  simp only [List.append_assoc]

/-- Decryption of a frame that is given by its parts. -/
theorem ccmpDecryptWith_append (hhdr : 24 ≤ hdr.length) (hiv : iv.length = 8)
    (hmic : mic.length = M) :
    ccmpDecryptWith keyLen M key (hdr ++ (iv ++ (body ++ mic))) (iv ++ (body ++ mic))
        (8 + (body.length + M)) =
      aesCcmAd (key.take keyLen) (ccmNonce (ccmpAadNonce (hdr ++ iv) iv).2) M body
        (ccmpAadNonce (hdr ++ iv) iv).1 mic := by
  obtain ⟨hhead, hpn⟩ := take_parts body mic hhdr hiv
  obtain ⟨hbody, htail⟩ := slice_parts body mic hiv
  rw [ccmpDecryptWith, if_neg (by omega), ← ccmpAadNonce_take, hhead, hpn, ccmpAadNonce_take,
    show 8 + (body.length + M) - 8 - M = body.length by omega]
  dsimp only
  rw [hbody, ← hmic, htail]

/-- A frame is accepted, and turned into a plain frame, exactly if the plain frame is encrypted to
it. -/
theorem ccmpDecryptWith_eq_some_iff (hhdr : 24 ≤ hdr.length) (hiv : iv.length = 8)
    (hmic : mic.length = M) {plain : List Byte} :
    ccmpDecryptWith keyLen M key (hdr ++ (iv ++ (body ++ mic))) (iv ++ (body ++ mic))
        (8 + (body.length + M)) = some plain ↔
      ccmpEncryptWith keyLen M key (hdr ++ (iv ++ (plain ++ room))) (hdr.length + plain.length)
        hdr.length none 0 = some (setIswep hdr ++ (iv ++ (body ++ mic))) := by
  rw [ccmpDecryptWith_append hhdr hiv hmic, ccmpEncryptWith_append hhdr hiv,
    aesCcmAd_eq_some_iff hmic, Option.map_eq_some_iff]
  constructor
  · intro h
    exact ⟨_, h, rfl⟩
  · rintro ⟨⟨c, auth⟩, h, heq⟩
    have hauth := (length_of_aesCcmAe h).2
    have hparts := List.append_cancel_left (List.append_cancel_left heq)
    obtain ⟨rfl, rfl⟩ := List.append_inj' hparts (hauth.trans hmic.symm)
    exact h

theorem length_of_ccmpEncryptWith (hhdr : 24 ≤ hdr.length) (hiv : iv.length = 8)
    {plain enc : List Byte}
    (h : ccmpEncryptWith keyLen M key (hdr ++ (iv ++ (plain ++ room))) (hdr.length + plain.length)
      hdr.length none 0 = some enc) : enc.length = hdr.length + (8 + (plain.length + M)) := by
  rw [ccmpEncryptWith_append hhdr hiv, Option.map_eq_some_iff] at h
  obtain ⟨c, h, rfl⟩ := h
  obtain ⟨hcrypt, hauth⟩ := length_of_aesCcmAe h
  simp only [List.length_append, length_setIswep (show 2 ≤ hdr.length by omega), hiv, hcrypt, hauth]

/-- The results are copied back. -/
theorem map_memcpy_decrypt_iff (hhdr : 24 ≤ hdr.length) (hiv : iv.length = 8)
    (hmic : mic.length = M) (hsize : (hdr ++ (iv ++ (body ++ mic))).length < 2 ^ 32)
    {frame' : List Byte} :
    (ccmpDecryptWith keyLen M key (hdr ++ (iv ++ (body ++ mic))) (iv ++ (body ++ mic))
        (8 + (body.length + M))).map (memcpy (hdr ++ (iv ++ (body ++ mic))) (hdr.length + 8)) =
          some frame' ↔
      ∃ plain, plain.length = body.length ∧ frame' = hdr ++ (iv ++ (plain ++ mic)) ∧
        ∀ room : List Byte, room.length = M →
          (ccmpEncryptWith keyLen M key (hdr ++ (iv ++ (plain ++ room)))
            ((hdr.length + plain.length) % 2 ^ 32) hdr.length none 0).map
              (memcpy (hdr ++ (iv ++ (plain ++ room))) 0) =
            some (setIswep hdr ++ (iv ++ (body ++ mic))) := by
  simp only [List.length_append] at hsize
  -- what is encrypted is as long as the frame
  have hcopy {plain room enc : List Byte} (hroom : room.length = M)
      (h : ccmpEncryptWith keyLen M key (hdr ++ (iv ++ (plain ++ room)))
        (hdr.length + plain.length) hdr.length none 0 = some enc) :
      memcpy (hdr ++ (iv ++ (plain ++ room))) 0 enc = enc := by
    apply memcpy_all
    rw [length_of_ccmpEncryptWith hhdr hiv h]
    simp only [List.length_append, hiv, hroom]
  rw [Option.map_eq_some_iff]
  constructor
  · rintro ⟨plain, hdec, rfl⟩
    have henc (room : List Byte) :
        ccmpEncryptWith keyLen M key (hdr ++ (iv ++ (plain ++ room))) (hdr.length + plain.length)
          hdr.length none 0 = some (setIswep hdr ++ (iv ++ (body ++ mic))) :=
      (ccmpDecryptWith_eq_some_iff hhdr hiv hmic).mp hdec
    rw [ccmpDecryptWith_append hhdr hiv hmic, aesCcmAd_eq_some_iff hmic] at hdec
    have hlen := (length_of_aesCcmAe hdec).1.symm
    refine ⟨plain, hlen, memcpy_payload hiv hlen, fun room hroom => ?_⟩
    rw [Nat.mod_eq_of_lt (by omega), henc room, Option.map_some, hcopy hroom (henc room)]
  · rintro ⟨plain, hlen, rfl, henc⟩
    obtain ⟨enc, henc, heq⟩ := Option.map_eq_some_iff.mp (henc mic hmic)
    rw [Nat.mod_eq_of_lt (by omega)] at henc
    rw [hcopy hmic henc] at heq
    exact ⟨plain, (ccmpDecryptWith_eq_some_iff hhdr hiv hmic).mpr (heq ▸ henc),
      memcpy_payload hiv hlen⟩

end Frame

/-- In place: a frame is accepted exactly if it is the encryption of the frame it is turned into,
whose header and authentication value it keeps; `room` is what was behind the plain text. -/
theorem rtwCcmpDecrypt_eq_some_iff {key hdr iv body mic frame' : List Byte} {keyLen : ℕ}
    (hhdr : 24 ≤ hdr.length) (hiv : iv.length = 8) (hmic : mic.length = ccmpMicLen keyLen)
    (hsize : (hdr ++ (iv ++ (body ++ mic))).length < 2 ^ 32) :
    rtwCcmpDecrypt key keyLen hdr.length (hdr ++ (iv ++ (body ++ mic)))
        (hdr ++ (iv ++ (body ++ mic))).length = some frame' ↔
      ∃ plain, plain.length = body.length ∧ frame' = hdr ++ (iv ++ (plain ++ mic)) ∧
        ∀ room : List Byte, room.length = mic.length →
          rtwCcmpEncrypt key keyLen hdr.length (hdr ++ (iv ++ (plain ++ room))) plain.length =
            some (setIswep hdr ++ (iv ++ (body ++ mic))) := by
  have hlen : ((hdr ++ (iv ++ (body ++ mic))).length + 2 ^ 32 - hdr.length) % 2 ^ 32 =
      8 + (body.length + mic.length) := by
    simp only [List.length_append] at hsize ⊢
    omega
  rw [rtwCcmpDecrypt, hlen, List.drop_left]
  by_cases h16 : keyLen = 16
  · rw [ccmpMicLen, if_pos h16] at hmic
    simp only [rtwCcmpEncrypt, if_pos h16]
    rw [hmic]
    exact map_memcpy_decrypt_iff hhdr hiv hmic hsize
  · rw [ccmpMicLen, if_neg h16] at hmic
    by_cases h32 : keyLen = 32
    · simp only [rtwCcmpEncrypt, if_neg h16, if_pos h32]
      rw [hmic]
      exact map_memcpy_decrypt_iff hhdr hiv hmic hsize
    · -- neither side does anything with a key of another length
      simp only [rtwCcmpEncrypt, if_neg h16, if_neg h32, Option.map_none]
      refine iff_of_false (by simp) ?_
      rintro ⟨plain, -, -, h⟩
      exact absurd (h mic rfl) (by simp)

section Sample

/-- A frame with a payload of three bytes, encrypted with a key of zeros. -/
def ccmpHdr : List Byte := [0x08, 0x41] ++ .replicate 22 0

def ccmpIv : List Byte := [7, 0, 0, 0x20, 0, 0, 0, 0]

def ccmpMic : List Byte :=
  [0xe0, 0xc4, 0xa3, 0x4e, 0xe4, 0x2e, 0x80, 0x1a]

def ccmpBody : List Byte := [0x91, 0x9b, 0x6d]

theorem rtwCcmpDecrypt_three :
    ∃ plain, plain.length = ccmpBody.length ∧
      ccmpHdr ++ (ccmpIv ++ ([1, 2, 3] ++ ccmpMic)) = ccmpHdr ++ (ccmpIv ++ (plain ++ ccmpMic)) ∧
      ∀ room : List Byte, room.length = ccmpMic.length →
        rtwCcmpEncrypt (.replicate 16 0) 16 ccmpHdr.length (ccmpHdr ++ (ccmpIv ++ (plain ++ room)))
          plain.length = some (setIswep ccmpHdr ++ (ccmpIv ++ (ccmpBody ++ ccmpMic))) :=
  (rtwCcmpDecrypt_eq_some_iff (by decide) rfl rfl (by decide)).mp (by decide +kernel)

end Sample

end Rtl88x2cu.Crypto
