import Rtl88x2cu.Lib.Tlv
import Rtl88x2cu.Nat25.NdLinkLayer

/-!
# Relay tags of PPPoE

In the discovery phase of PPPoE the handler of frames puts a Relay-Session-Id tag in the requests of
a client, with its MAC address, and takes it out of the answers (`core/rtw_br_ext.c`). The length of
the new tag is read back in the order of the host from a field that is in the order of the network
(`nat25AddPppoeTag`).
-/

namespace Rtl88x2cu.Nat25

open Bytes (Byte)
open OnesComplement Walker

/-! ## Memory -/

namespace Skb

variable (f : Skb)

/-- `memmove`, inside the frame. -/
def memmove (dst src n : ℕ) : Skb :=
  { f with data := fun i => if dst ≤ i ∧ i < dst + n then f.data (i - dst + src) else f.data i }

/-- `memcpy`, from other memory. -/
def memcpy (dst : ℕ) (src : ℕ → Byte) (n : ℕ) : Skb :=
  { f with data := fun i => if dst ≤ i ∧ i < dst + n then src (i - dst) else f.data i }

/-- `skb_pull_and_merge`: `len` bytes are cut out at `src`. -/
def pullAndMerge (src len : ℕ) : Option Skb :=
  if f.len < src + len ∨ f.len < len then none
  else some { f.memmove src (src + len) (f.len - (src + len)) with len := f.len - len }

variable {dst src n i : ℕ} {mem : ℕ → Byte}

theorem data_memmove (h : i < n) : (f.memmove dst src n).data (dst + i) = f.data (src + i) := by
  have hin : dst ≤ dst + i ∧ dst + i < dst + n := by omega
  refine (if_pos hin).trans (congrArg f.data ?_)
  omega

theorem data_memmove_of_out (h : i < dst ∨ dst + n ≤ i) :
    (f.memmove dst src n).data i = f.data i :=
  if_neg (by omega)

theorem data_memcpy (h : i < n) : (f.memcpy dst mem n).data (dst + i) = mem i := by
  have hin : dst ≤ dst + i ∧ dst + i < dst + n := by omega
  refine (if_pos hin).trans (congrArg mem ?_)
  omega

theorem data_memcpy_of_out (h : i < dst ∨ dst + n ≤ i) : (f.memcpy dst mem n).data i = f.data i :=
  if_neg (by omega)

end Skb

/-! ## The functions -/

/-- `ph->length`. -/
def pppoeLength : ℕ := ethHlen + 4

/-- `ph->tag`. -/
def pppoeTags : ℕ := ethHlen + 6

/-- `TAG_HDR_LEN`. -/
def tagHdrLen : ℕ := 4

/-- `MAGIC_CODE`, in the order of the network. -/
def magicCode : List Byte := [0x81, 0x86]

/-- `MAGIC_CODE_LEN + RTL_RELAY_TAG_LEN`. -/
def relayLen : ℕ := 2 + 6

/-- `PTT_RELAY_SID`. -/
def pttRelaySid : BitVec 16 := 0x0110

/-- `sizeof(tag_buf)`. -/
def sizeofTagBuf : ℕ := 40

/-- An iteration of `__nat25_find_pppoe_tag`, for tags that end at `fin`. -/
def findTagStep (rd : ℕ → Option Byte) (fin : ℕ) (type : BitVec 16) (curPtr : ℕ) :
    Option (Next (Option ℕ)) :=
  if curPtr < fin then do
    let tagType := Endian.big.load (← rd curPtr) (← rd (curPtr + 1))
    let tagLen := Endian.big.load (← rd (curPtr + 2)) (← rd (curPtr + 3))
    if tagType = type then some (.done (some curPtr))
    else some (.goto (curPtr + tagHdrLen + tagLen.toNat))
  else some (.done none)

/-- `__nat25_find_pppoe_tag`. An iteration goes on by the header of a tag at least. -/
def nat25FindPppoeTag (rd : ℕ → Option Byte) (length : ℕ) (type : BitVec 16) :
    Option (Option ℕ) :=
  walk (findTagStep rd (pppoeTags + length) type) (length + 1) pppoeTags

variable (e : Endian)

/-- The bytes of a MAC address. -/
def macBytes (a : EthAddr) : List Byte := [a.o0, a.o1, a.o2, a.o3, a.o4, a.o5]

/-- `tag_buf`, with the relay tag for a client and the old value, and what is behind it on the
stack. -/
def relayTag (stack : ℕ → Byte) (old : List Byte) (mac : EthAddr) : ℕ → Byte :=
  let len := BitVec.ofNat 16 (relayLen + old.length)
  let tag := [Endian.big.fst pttRelaySid, Endian.big.snd pttRelaySid, Endian.big.fst len,
    Endian.big.snd len] ++ (magicCode ++ (macBytes mac ++ old))
  fun i => if i < tag.length then tag.getD i 0 else stack i

/-- `data_len` of `__nat25_add_pppoe_tag`: the length of the tag is not converted. -/
def addedLen (tag : ℕ → Byte) : ℕ := (e.load (tag 2) (tag 3)).toNat + tagHdrLen

/-- `__nat25_add_pppoe_tag`. -/
def nat25AddPppoeTag (tailroom : ℕ) (tag : ℕ → Byte) (skb : Skb) : Option Skb :=
  let dataLen := addedLen e tag
  if tailroom < dataLen then none
  else
    let length := skb.be16 pppoeLength
    let skb := { skb with len := skb.len + dataLen }
    let skb := skb.memmove (pppoeTags + dataLen) pppoeTags length
    let skb := skb.store .big pppoeLength (BitVec.ofNat 16 (length + dataLen))
    some (skb.memcpy pppoeTags tag dataLen)

/-- PADI and PADR: the relay tag is put in front of the other tags, with the value of the one that
was there. -/
def addRelayTag (tailroom : ℕ) (stack : ℕ → Byte) (skb : Skb) : Option Skb :=
  match nat25FindPppoeTag skb.anywhere (skb.be16 pppoeLength) pttRelaySid with
  | none => none
  | some none => nat25AddPppoeTag e tailroom (relayTag stack [] skb.sa) skb
  | some (some pOldTag) =>
    let oldTagLen := skb.be16 (pOldTag + 2)
    if sizeofTagBuf < oldTagLen + tagHdrLen + relayLen then none
    else
      let old := skb.bytes (pOldTag + tagHdrLen) oldTagLen
      (skb.pullAndMerge pOldTag (tagHdrLen + oldTagLen)).bind fun skb' =>
        nat25AddPppoeTag e (tailroom + (tagHdrLen + oldTagLen)) (relayTag stack old skb.sa)
          (skb'.store .big pppoeLength
            (BitVec.ofNat 16 (skb.be16 pppoeLength) - BitVec.ofNat 16 (tagHdrLen + oldTagLen)))

/-- PADO and PADS: the destination is the client that the relay tag tells. The tag is taken out, or
the old value is left in it. -/
def takeRelayTag (skb : Skb) : Option Skb :=
  match nat25FindPppoeTag skb.anywhere (skb.be16 pppoeLength) pttRelaySid with
  | none => none
  | some none => none
  | some (some ptr) =>
    let tagLen := skb.be16 (ptr + 2)
    if tagLen < relayLen then none
    else if skb.bytes (ptr + tagHdrLen) 2 ≠ magicCode then none
    else
      let offset := if relayLen < tagLen then tagHdrLen else 0
      let cut := tagHdrLen + relayLen - offset
      ((skb.setMac 0 (skb.mac (ptr + tagHdrLen + 2))).pullAndMerge
        (ptr + offset) cut).map fun skb' =>
        let skb' := skb'.store .big pppoeLength
          (BitVec.ofNat 16 (skb.be16 pppoeLength) - BitVec.ofNat 16 cut)
        if 0 < offset then skb'.store .big (ptr + 2) (BitVec.ofNat 16 (tagLen - relayLen))
        else skb'

/-! ## What memory contains -/

namespace Skb

/-- The bytes `bs` are at the offset `p`. -/
def Contains (f : Skb) (p : ℕ) (bs : List Byte) : Prop := f.bytes p bs.length = bs

variable {f g : Skb} {p : ℕ} {as bs : List Byte}

theorem contains_append :
    f.Contains p (as ++ bs) ↔ f.Contains p as ∧ f.Contains (p + as.length) bs := by
  unfold Contains
  rw [List.length_append, bytes_add]
  constructor
  · intro h
    exact List.append_inj h (length_bytes _ _ _)
  · rintro ⟨ha, hb⟩
    rw [ha, hb]

theorem contains_cons {b : Byte} :
    f.Contains p (b :: bs) ↔ f.data p = b ∧ f.Contains (p + 1) bs := by
  unfold Contains
  rw [List.length_cons, bytes_succ, List.cons.injEq]

/-- Memory contains what other memory does, where it is the same. -/
theorem Contains.congr (h : f.Contains p bs)
    (hsame : ∀ i, p ≤ i → i < p + bs.length → g.data i = f.data i) : g.Contains p bs :=
  (bytes_congr hsame).trans h

/-- It contains a copy of what is somewhere else. -/
theorem Contains.copy {q : ℕ} (h : f.Contains q bs)
    (hcopy : ∀ i < bs.length, g.data (p + i) = f.data (q + i)) : g.Contains p bs := by
  refine Eq.trans (List.map_congr_left fun i hi => ?_) h
  exact hcopy i (List.mem_range.mp hi)

theorem Contains.getD (h : f.Contains p bs) {i : ℕ} (hi : i < bs.length) :
    f.data (p + i) = bs.getD i 0 := by
  unfold Contains at h
  have hget : (f.bytes p bs.length).getD i 0 = f.data (p + i) := by
    rw [bytes, List.getD_eq_getElem?_getD, List.getElem?_map, List.getElem?_range hi]
    rfl
  rw [← hget, h]

theorem contains_of_getD (h : ∀ i < bs.length, f.data (p + i) = bs.getD i 0) : f.Contains p bs := by
  refine List.ext_getElem (length_bytes _ _ _) fun i hi hi' => ?_
  simp only [bytes, List.getElem_map, List.getElem_range]
  rw [h i hi']
  exact (List.getElem_eq_getD 0).symm

end Skb

/-! ## Lists of tags -/

/-- The tags of PPPoE: type and length, in the order of the network, and the value. -/
def tagFormat : Tlv.Format (BitVec 16) where
  hdr type n := [Endian.big.fst type, Endian.big.snd type, Endian.big.fst (BitVec.ofNat 16 n),
    Endian.big.snd (BitVec.ofNat 16 n)]
  hlen := tagHdrLen
  length_hdr _ _ := rfl
  maxBody := 65535

abbrev Tag := Tlv.Elem (BitVec 16)

/-- A tag at `p`. -/
theorem contains_tag {f : Skb} {p : ℕ} {t : Tag} (h : f.Contains p (tagFormat.enc t))
    (hfit : t.body.length ≤ 65535) :
    f.load .big p = t.id ∧ f.be16 (p + 2) = t.body.length ∧ f.Contains (p + tagHdrLen) t.body := by
  obtain ⟨hhdr, hbody⟩ := Skb.contains_append.mp h
  obtain ⟨h0, hhdr⟩ := Skb.contains_cons.mp hhdr
  obtain ⟨h1, hhdr⟩ := Skb.contains_cons.mp hhdr
  obtain ⟨h2, hhdr⟩ := Skb.contains_cons.mp hhdr
  obtain ⟨h3, -⟩ := Skb.contains_cons.mp hhdr
  refine ⟨?_, ?_, hbody⟩
  · rw [Skb.load, h0, h1, Endian.load_fst_snd]
  · rw [Skb.be16_eq_load, Skb.load, h2, h3, Endian.load_fst_snd, BitVec.toNat_ofNat,
      Nat.mod_eq_of_lt (by omega)]

section Find

variable {f : Skb} {fin p : ℕ} {type : BitVec 16} {t : Tag} {pre post : List Tag}

theorem findTagStep_tag (type : BitVec 16) (h : f.Contains p (tagFormat.enc t))
    (hfit : t.body.length ≤ 65535)
    (hp : p < fin) :
    findTagStep f.anywhere fin type p =
      if t.id = type then some (.done (some p))
      else some (.goto (p + (tagFormat.enc t).length)) := by
  obtain ⟨hid, hlen, -⟩ := contains_tag h hfit
  have hlen' : (Endian.big.load (f.data (p + 2)) (f.data (p + 3))).toNat = t.body.length := by
    rw [← hlen, Skb.be16_eq_load]
    rfl
  have hid' : Endian.big.load (f.data p) (f.data (p + 1)) = t.id := hid
  rw [Tlv.Format.length_enc, ← Nat.add_assoc]
  unfold findTagStep
  rw [if_pos hp]
  simp only [Skb.anywhere, Option.bind_eq_bind, Option.bind_some, hid', hlen']
  rfl

/-- The walk goes over tags of other types. -/
theorem walk_findTag (h : f.Contains p (tagFormat.encode pre)) (hfits : tagFormat.Fits pre)
    (hfin : p + (tagFormat.encode pre).length ≤ fin) (hpre : ∀ t ∈ pre, t.id ≠ type) (n : ℕ) :
    walk (findTagStep f.anywhere fin type) (n + pre.length) p =
      walk (findTagStep f.anywhere fin type) n (p + (tagFormat.encode pre).length) := by
  induction pre generalizing p with
  | nil => rfl
  | cons t pre ih =>
    obtain ⟨htag, hrest⟩ := Skb.contains_append.mp h
    obtain ⟨hfit, hfits⟩ := tagFormat.fits_cons.mp hfits
    rw [Tlv.Format.encode_cons, List.length_append] at hfin
    have hpos : 4 ≤ (tagFormat.enc t).length := by
      rw [Tlv.Format.length_enc]
      exact Nat.le_add_right _ _
    have hstep := findTagStep_tag type htag hfit (show p < fin by omega)
    rw [if_neg (hpre t List.mem_cons_self)] at hstep
    rw [List.length_cons, ← Nat.add_assoc, walk_goto hstep,
      ih hrest hfits (by omega) fun t' ht' => hpre t' (List.mem_cons_of_mem t ht'),
      Tlv.Format.encode_cons, List.length_append, Nat.add_assoc]

end Find

/-- A well-formed frame with the tags `tags`: they fill what the header tells to be their length,
and are inside the frame. -/
structure HasTags (skb : Skb) (tags : List Tag) : Prop where
  fits : tagFormat.Fits tags
  length : skb.be16 pppoeLength = (tagFormat.encode tags).length
  contains : skb.Contains pppoeTags (tagFormat.encode tags)
  inside : pppoeTags + (tagFormat.encode tags).length ≤ skb.len

namespace HasTags

variable {skb : Skb} {tags pre post : List Tag} {t : Tag} {type : BitVec 16}

theorem find_eq_none (h : HasTags skb tags) (htags : ∀ t ∈ tags, t.id ≠ type) :
    nat25FindPppoeTag skb.anywhere (skb.be16 pppoeLength) type = some none := by
  have hle : tags.length ≤ (tagFormat.encode tags).length :=
    tagFormat.length_le_length_encode (by decide) tags
  obtain ⟨n, hn⟩ : ∃ n, (tagFormat.encode tags).length + 1 = n + 1 + tags.length :=
    ⟨(tagFormat.encode tags).length - tags.length, by omega⟩
  rw [nat25FindPppoeTag, h.length, hn, walk_findTag h.contains h.fits (Nat.le_refl _) htags]
  exact walk_done (if_neg (Nat.lt_irrefl _))

theorem find_eq_some (h : HasTags skb (pre ++ t :: post)) (hpre : ∀ t ∈ pre, t.id ≠ type)
    (ht : t.id = type) :
    nat25FindPppoeTag skb.anywhere (skb.be16 pppoeLength) type =
      some (some (pppoeTags + (tagFormat.encode pre).length)) := by
  have hle : pre.length ≤ (tagFormat.encode pre).length :=
    tagFormat.length_le_length_encode (by decide) pre
  have hlen := h.length
  have htags := h.contains
  have hfits := h.fits
  rw [tagFormat.encode_append, List.length_append, tagFormat.encode_cons, List.length_append]
    at hlen
  rw [tagFormat.encode_append, Skb.contains_append, tagFormat.encode_cons, Skb.contains_append]
    at htags
  have hpos : 4 ≤ (tagFormat.enc t).length := by
    rw [Tlv.Format.length_enc]
    exact Nat.le_add_right _ _
  obtain ⟨n, hn⟩ : ∃ n, skb.be16 pppoeLength + 1 = n + 1 + pre.length :=
    ⟨skb.be16 pppoeLength - pre.length, by omega⟩
  have hstep := findTagStep_tag type htags.2.1
    (hfits t (List.mem_append_right pre List.mem_cons_self))
    (show _ < pppoeTags + skb.be16 pppoeLength by omega)
  rw [if_pos ht] at hstep
  rw [nat25FindPppoeTag, hn,
    walk_findTag htags.1 (fun t' ht' => hfits t' (List.mem_append_left _ ht'))
    (by omega) hpre]
  exact walk_done hstep

end HasTags

end Rtl88x2cu.Nat25
