import Rtl88x2cu.Crypto.AesGcm
import Rtl88x2cu.Crypto.FrameAad

/-!
# GCMP frames

`core/crypto/gcmp.c`, and `_rtw_gcmp_encrypt` and `_rtw_gcmp_decrypt` of `core/rtw_swcrypto.c`, which
work in place on a frame: a header, eight bytes with the packet number, the payload, and room for
the sixteen bytes of the tag. The results of `rtw_malloc` are not `NULL`.
-/

namespace Rtl88x2cu.Crypto

open Bytes BlockMode

/-! ## Model -/

/-- `gcmp_encrypt`. -/
def gcmpEncrypt (tkLen : ℕ) (tk frame : List Byte) (len hdrlen : ℕ)
    (pn : Option (Vector Byte 6)) (keyid : Byte) : Option (List Byte) :=
  if len < hdrlen ∨ hdrlen < 24 then none
  else
    let p := frameStart frame (len - hdrlen) hdrlen pn keyid
    let a := gcmpAadNonce p.1 (p.1.drop hdrlen)
    (aesGcmAe (tk.take tkLen) a.2 p.2 a.1).map fun c => p.1 ++ (c.1 ++ c.2)

/-- `gcmp_decrypt`. -/
def gcmpDecrypt (tkLen : ℕ) (tk hdr data : List Byte) (dataLen : ℕ) : Option (List Byte) :=
  if dataLen < 8 + 16 then none
  else
    let mlen := dataLen - 8 - 16
    let a := gcmpAadNonce hdr data
    aesGcmAd (tk.take tkLen) a.2 (slice data 8 mlen) a.1 (slice data (8 + mlen) 16)

/-- `_rtw_gcmp_encrypt`; `none` is for `_FAIL`, which leaves the frame as it is. -/
def rtwGcmpEncrypt (key : List Byte) (keyLen hdrlen : ℕ) (frame : List Byte) (plen : ℕ) :
    Option (List Byte) :=
  (gcmpEncrypt keyLen key frame ((hdrlen + plen) % 2 ^ 32) hdrlen none 0).map fun enc =>
    memcpy frame 0 enc

/-- `_rtw_gcmp_decrypt`. -/
def rtwGcmpDecrypt (key : List Byte) (keyLen hdrlen : ℕ) (frame : List Byte) (plen : ℕ) :
    Option (List Byte) :=
  (gcmpDecrypt keyLen key frame (frame.drop hdrlen) ((plen + 2 ^ 32 - hdrlen) % 2 ^ 32)).map
    fun plain => memcpy frame (hdrlen + 8) plain

/-! ## Frames -/

theorem length_of_aesGcmAe {key iv plain aad crypt tag : List Byte}
    (h : aesGcmAe key iv plain aad = some (crypt, tag)) :
    crypt.length = plain.length ∧ tag.length = 16 := by
  rw [aesGcmAe, Option.map_eq_some_iff] at h
  obtain ⟨ctx, -, h⟩ := h
  rw [Prod.mk.injEq] at h
  rw [← h.1, ← h.2, length_aesGcmGctr, length_aesGctr, Vector.length_toList]
  exact ⟨rfl, rfl⟩

section Frame

variable {key hdr iv body mic room : List Byte} {keyLen : ℕ}

/-- Encryption of a frame that is given by its parts. -/
theorem gcmpEncrypt_append (hhdr : 24 ≤ hdr.length) (hiv : iv.length = 8) (plain : List Byte) :
    gcmpEncrypt keyLen key (hdr ++ (iv ++ (plain ++ room))) (hdr.length + plain.length)
        hdr.length none 0 =
      (aesGcmAe (key.take keyLen) (gcmpAadNonce (hdr ++ iv) iv).2 plain
        (gcmpAadNonce (hdr ++ iv) iv).1).map fun c => hdr ++ (iv ++ (c.1 ++ c.2)) := by
  rw [gcmpEncrypt, if_neg (by omega), Nat.add_sub_cancel_left, frameStart_none hiv]
  dsimp only
  rw [List.drop_left]
  simp only [List.append_assoc]

/-- Decryption of a frame that is given by its parts. -/
theorem gcmpDecrypt_append (hhdr : 24 ≤ hdr.length) (hiv : iv.length = 8) (hmic : mic.length = 16) :
    gcmpDecrypt keyLen key (hdr ++ (iv ++ (body ++ mic))) (iv ++ (body ++ mic))
        (8 + (body.length + 16)) =
      aesGcmAd (key.take keyLen) (gcmpAadNonce (hdr ++ iv) iv).2 body
        (gcmpAadNonce (hdr ++ iv) iv).1 mic := by
  obtain ⟨hhead, hpn⟩ := take_parts body mic hhdr hiv
  obtain ⟨hbody, htail⟩ := slice_parts body mic hiv
  rw [gcmpDecrypt, if_neg (by omega), ← gcmpAadNonce_take, hhead, hpn, gcmpAadNonce_take,
    show 8 + (body.length + 16) - 8 - 16 = body.length by omega]
  dsimp only
  rw [hbody, ← hmic, htail]

/-- A frame is accepted, and turned into a plain frame, exactly if the plain frame is encrypted to
it. -/
theorem gcmpDecrypt_eq_some_iff (hhdr : 24 ≤ hdr.length) (hiv : iv.length = 8)
    (hmic : mic.length = 16) {plain : List Byte} :
    gcmpDecrypt keyLen key (hdr ++ (iv ++ (body ++ mic))) (iv ++ (body ++ mic))
        (8 + (body.length + 16)) = some plain ↔
      gcmpEncrypt keyLen key (hdr ++ (iv ++ (plain ++ room))) (hdr.length + plain.length)
        hdr.length none 0 = some (hdr ++ (iv ++ (body ++ mic))) := by
  rw [gcmpDecrypt_append hhdr hiv hmic, gcmpEncrypt_append hhdr hiv, aesGcmAd_eq_some_iff hmic,
    Option.map_eq_some_iff]
  constructor
  · intro h
    exact ⟨_, h, rfl⟩
  · rintro ⟨⟨c, tag⟩, h, heq⟩
    have htag := (length_of_aesGcmAe h).2
    have hparts := List.append_cancel_left (List.append_cancel_left heq)
    obtain ⟨rfl, rfl⟩ := List.append_inj' hparts (htag.trans hmic.symm)
    exact h

theorem length_of_gcmpEncrypt (hhdr : 24 ≤ hdr.length) (hiv : iv.length = 8)
    {plain enc : List Byte}
    (h : gcmpEncrypt keyLen key (hdr ++ (iv ++ (plain ++ room))) (hdr.length + plain.length)
      hdr.length none 0 = some enc) : enc.length = hdr.length + (8 + (plain.length + 16)) := by
  rw [gcmpEncrypt_append hhdr hiv, Option.map_eq_some_iff] at h
  obtain ⟨c, h, rfl⟩ := h
  obtain ⟨hcrypt, htag⟩ := length_of_aesGcmAe h
  simp only [List.length_append, hiv, hcrypt, htag]

end Frame

/-- In place: a frame is accepted exactly if it is the encryption of the frame it is turned into,
whose header and tag it keeps; `room` is what was behind the plain text. -/
theorem rtwGcmpDecrypt_eq_some_iff {key hdr iv body mic frame' : List Byte} {keyLen : ℕ}
    (hhdr : 24 ≤ hdr.length) (hiv : iv.length = 8) (hmic : mic.length = 16)
    (hsize : (hdr ++ (iv ++ (body ++ mic))).length < 2 ^ 32) :
    rtwGcmpDecrypt key keyLen hdr.length (hdr ++ (iv ++ (body ++ mic)))
        (hdr ++ (iv ++ (body ++ mic))).length = some frame' ↔
      ∃ plain, plain.length = body.length ∧ frame' = hdr ++ (iv ++ (plain ++ mic)) ∧
        ∀ room : List Byte, room.length = 16 →
          rtwGcmpEncrypt key keyLen hdr.length (hdr ++ (iv ++ (plain ++ room))) plain.length =
            some (hdr ++ (iv ++ (body ++ mic))) := by
  have hlen : ((hdr ++ (iv ++ (body ++ mic))).length + 2 ^ 32 - hdr.length) % 2 ^ 32 =
      8 + (body.length + 16) := by
    simp only [List.length_append, hiv, hmic] at hsize ⊢
    omega
  simp only [List.length_append] at hsize
  -- what is encrypted is as long as the frame
  have hcopy {plain room enc : List Byte} (hroom : room.length = 16)
      (h : gcmpEncrypt keyLen key (hdr ++ (iv ++ (plain ++ room))) (hdr.length + plain.length)
        hdr.length none 0 = some enc) : memcpy (hdr ++ (iv ++ (plain ++ room))) 0 enc = enc := by
    apply memcpy_all
    rw [length_of_gcmpEncrypt hhdr hiv h]
    simp only [List.length_append, hiv, hroom]
  rw [rtwGcmpDecrypt, hlen, List.drop_left, Option.map_eq_some_iff]
  constructor
  · rintro ⟨plain, hdec, rfl⟩
    have henc (room : List Byte) :
        gcmpEncrypt keyLen key (hdr ++ (iv ++ (plain ++ room))) (hdr.length + plain.length)
          hdr.length none 0 = some (hdr ++ (iv ++ (body ++ mic))) :=
      (gcmpDecrypt_eq_some_iff hhdr hiv hmic).mp hdec
    rw [gcmpDecrypt_append hhdr hiv hmic, aesGcmAd_eq_some_iff hmic] at hdec
    have hplain := (length_of_aesGcmAe hdec).1.symm
    refine ⟨plain, hplain, memcpy_payload hiv hplain, fun room hroom => ?_⟩
    rw [rtwGcmpEncrypt, Nat.mod_eq_of_lt (by omega), henc room, Option.map_some,
      hcopy hroom (henc room)]
  · rintro ⟨plain, hplain, rfl, henc⟩
    obtain ⟨enc, henc, heq⟩ := Option.map_eq_some_iff.mp (henc mic hmic)
    rw [Nat.mod_eq_of_lt (by omega)] at henc
    rw [hcopy hmic henc] at heq
    exact ⟨plain, (gcmpDecrypt_eq_some_iff hhdr hiv hmic).mpr (heq ▸ henc),
      memcpy_payload hiv hplain⟩

section Sample

/-- A frame with a payload of three bytes, encrypted with a key of zeros. -/
def gcmpHdr : List Byte := [0x08, 0x41] ++ .replicate 22 0

def gcmpIv : List Byte := [7, 0, 0, 0x20, 0, 0, 0, 0]

def gcmpMic : List Byte :=
  [0x48, 0x77, 0x42, 0x88, 0x8a, 0x45, 0xd7, 0xc3, 0xc6, 0x6c, 0x5b, 0xb2, 0x22, 0x0c, 0x1b, 0xfa]

def gcmpBody : List Byte := [0x28, 0x5c, 0x47]

theorem rtwGcmpDecrypt_three :
    ∃ plain, plain.length = gcmpBody.length ∧
      gcmpHdr ++ (gcmpIv ++ ([1, 2, 3] ++ gcmpMic)) = gcmpHdr ++ (gcmpIv ++ (plain ++ gcmpMic)) ∧
      ∀ room : List Byte, room.length = 16 →
        rtwGcmpEncrypt (.replicate 16 0) 16 gcmpHdr.length (gcmpHdr ++ (gcmpIv ++ (plain ++ room)))
          plain.length = some (gcmpHdr ++ (gcmpIv ++ (gcmpBody ++ gcmpMic))) :=
  (rtwGcmpDecrypt_eq_some_iff (by decide) rfl rfl (by decide)).mp (by decide +kernel)

end Sample

end Rtl88x2cu.Crypto
