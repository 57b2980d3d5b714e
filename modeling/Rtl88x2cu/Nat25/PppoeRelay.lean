import Rtl88x2cu.Nat25.PppoeTag

/-!
# The way of a relay tag

A request goes out with a relay tag, in which the old value is behind the address of the client, and
the answer that brings the tag back goes to the client. `relayKept_iff` says for which requests this
leaves the lists of tags as they should be.
-/

namespace Rtl88x2cu.Nat25

open Bytes (Byte)
open OnesComplement

/-! ## Cutting and adding -/

section Cut

variable {f : Skb} {p : ℕ} {as bs cs : List Byte}

/-- A part of what memory contains is cut out. -/
theorem pullAndMerge_contains (h : f.Contains p (as ++ (cs ++ bs)))
    (hlen : p + (as.length + (cs.length + bs.length)) ≤ f.len) :
    ∃ g, f.pullAndMerge (p + as.length) cs.length = some g ∧ g.len = f.len - cs.length ∧
      (∀ i < p + as.length, g.data i = f.data i) ∧ g.Contains p (as ++ bs) := by
  obtain ⟨has, hrest⟩ := Skb.contains_append.mp h
  obtain ⟨-, hbs⟩ := Skb.contains_append.mp hrest
  refine ⟨_, if_neg (by omega), rfl, fun i hi => f.data_memmove_of_out (Or.inl hi), ?_⟩
  refine Skb.contains_append.mpr ⟨?_, ?_⟩
  · exact has.congr fun i _ hi => f.data_memmove_of_out (Or.inl hi)
  · exact hbs.copy fun i hi => f.data_memmove (by omega)

variable {e : Endian} {tailroom : ℕ} {tag : ℕ → Byte}

/-- Tags are moved up, and a new one is put in front of them. -/
theorem nat25AddPppoeTag_contains (h : f.Contains pppoeTags bs)
    (hlen : f.be16 pppoeLength = bs.length)
    (hroom : addedLen e tag ≤ tailroom) :
    ∃ g, nat25AddPppoeTag e tailroom tag f = some g ∧ g.len = f.len + addedLen e tag ∧
      (∀ i < pppoeLength, g.data i = f.data i) ∧
      g.be16 pppoeLength = (bs.length + addedLen e tag) % 65536 ∧
      (∀ i < addedLen e tag, g.data (pppoeTags + i) = tag i) ∧
      g.Contains (pppoeTags + addedLen e tag) bs := by
  have hptr : pppoeTags = pppoeLength + 2 := rfl
  refine ⟨_, if_neg (Nat.not_lt.mpr hroom), rfl, fun i hi => ?_, ?_, fun i hi => ?_, ?_⟩
  · rw [Skb.data_memcpy_of_out _ (Or.inl (by omega)),
      Skb.data_store_of_ne _ _ _ (by omega) (by omega),
      Skb.data_memmove_of_out _ (Or.inl (by omega))]
  · have hstore (g : Skb) (v : BitVec 16) (m : ℕ → Byte) (n : ℕ) :
        ((g.store .big pppoeLength v).memcpy pppoeTags m n).be16 pppoeLength = v.toNat := by
      rw [Skb.be16, Skb.data_memcpy_of_out _ (Or.inl (by omega)),
        Skb.data_memcpy_of_out _ (Or.inl (by omega)), ← Skb.be16, Skb.be16_eq_load, Skb.load_store]
    rw [hstore, BitVec.toNat_ofNat, hlen]
  · exact Skb.data_memcpy _ hi
  · rw [hlen]
    refine h.copy fun i hi => ?_
    rw [Skb.data_memcpy_of_out _ (Or.inr (by omega)),
      Skb.data_store_of_ne _ _ _ (by omega) (by omega), Skb.data_memmove _ hi]

end Cut

/-! ## Relay tags -/

/-- The relay tag of a client, with the old value. -/
def relayElem (mac : EthAddr) (old : List Byte) : Tag :=
  ⟨pttRelaySid, magicCode ++ (macBytes mac ++ old)⟩

/-- The first relay tag of a list. -/
def relayOf (tags : List Tag) : Option Tag := tags.find? fun t => t.id = pttRelaySid

/-- Its value. -/
def relayValue (tags : List Tag) : List Byte := (relayOf tags).elim [] Tlv.Elem.body

/-- The other tags. -/
def others (tags : List Tag) : List Tag := tags.eraseP fun t => t.id = pttRelaySid

section Relay

variable {tags : List Tag} {t : Tag} (mac : EthAddr) (old : List Byte)

@[simp]
theorem length_relayElem : (relayElem mac old).body.length = relayLen + old.length := by
  simp only [relayElem, magicCode, macBytes, List.length_append, List.length_cons, List.length_nil,
    relayLen]
  omega

@[simp]
theorem length_enc_relayElem :
    (tagFormat.enc (relayElem mac old)).length = tagHdrLen + relayLen + old.length := by
  rw [Tlv.Format.length_enc, length_relayElem, Nat.add_assoc]
  rfl

/-- `tag_buf` holds the relay tag. -/
theorem relayTag_eq (stack : ℕ → Byte) {i : ℕ} (h : i < tagHdrLen + relayLen + old.length) :
    relayTag stack old mac i = (tagFormat.enc (relayElem mac old)).getD i 0 := by
  have henc : tagFormat.enc (relayElem mac old) =
      [Endian.big.fst pttRelaySid, Endian.big.snd pttRelaySid,
        Endian.big.fst (BitVec.ofNat 16 (relayLen + old.length)),
        Endian.big.snd (BitVec.ofNat 16 (relayLen + old.length))] ++
        (magicCode ++ (macBytes mac ++ old)) := by
    rw [Tlv.Format.enc, length_relayElem]
    rfl
  rw [relayTag, ← henc]
  exact if_pos (by rwa [length_enc_relayElem])

theorem relayTag_len (e : Endian) (stack : ℕ → Byte) (h : old.length ≤ 28) :
    addedLen e (relayTag stack old mac) =
      match e with
      | .big => tagHdrLen + relayLen + old.length
      | .little => tagHdrLen + 256 * (relayLen + old.length) := by
  have h2 : relayTag stack old mac 2 =
    Endian.big.fst (BitVec.ofNat 16 (relayLen + old.length)) := by
    rw [relayTag_eq mac old stack (by simp only [tagHdrLen, relayLen]; omega)]
    rw [Tlv.Format.enc, length_relayElem]
    rfl
  have h3 : relayTag stack old mac 3 =
    Endian.big.snd (BitVec.ofNat 16 (relayLen + old.length)) := by
    rw [relayTag_eq mac old stack (by simp only [tagHdrLen, relayLen]; omega)]
    rw [Tlv.Format.enc, length_relayElem]
    rfl
  rw [addedLen, h2, h3]
  cases e with
  | big =>
    rw [Endian.load_fst_snd, BitVec.toNat_ofNat]
    simp only [tagHdrLen, relayLen]
    omega
  | little =>
    rw [Endian.toNat_load_little]
    simp only [Endian.fst, Endian.snd, BitVec.toNat_setWidth, BitVec.toNat_ushiftRight,
      Nat.shiftRight_eq_div_pow, BitVec.toNat_ofNat, tagHdrLen, relayLen]
    omega

/-- A list with a relay tag, around the first one. -/
theorem relayOf_eq_some (h : relayOf tags = some t) :
    ∃ pre post, tags = pre ++ t :: post ∧ (∀ x ∈ pre, x.id ≠ pttRelaySid) ∧ t.id = pttRelaySid ∧
      others tags = pre ++ post := by
  obtain ⟨ht, pre, post, rfl, hpre⟩ := List.find?_eq_some_iff_append.mp h
  have hpre' : ∀ x ∈ pre, x.id ≠ pttRelaySid := by simpa using hpre
  have ht' : t.id = pttRelaySid := by simpa using ht
  refine ⟨pre, post, rfl, hpre', ht', ?_⟩
  rw [others, List.eraseP_append_right _ (by simpa using hpre'),
    List.eraseP_cons_of_pos (by simpa using ht')]

theorem relayOf_eq_none (h : relayOf tags = none) :
    (∀ x ∈ tags, x.id ≠ pttRelaySid) ∧ others tags = tags := by
  have hnone : ∀ x ∈ tags, x.id ≠ pttRelaySid := by simpa using List.find?_eq_none.mp h
  exact ⟨hnone, List.eraseP_of_forall_not (by simpa using hnone)⟩

end Relay

/-! ## Requests -/

section Request

variable {e : Endian} {tailroom : ℕ} {stack : ℕ → Byte} {skb : Skb} {tags : List Tag}

theorem HasTags.of_append {pre post : List Tag} {t : Tag} (h : HasTags skb (pre ++ t :: post)) :
    tagFormat.Fits pre ∧ t.body.length ≤ 65535 ∧ tagFormat.Fits post ∧
      skb.Contains pppoeTags (tagFormat.encode pre ++ (tagFormat.enc t ++ tagFormat.encode post)) ∧
      (tagFormat.encode (pre ++ t :: post)).length =
        (tagFormat.encode pre).length +
          ((tagFormat.enc t).length + (tagFormat.encode post).length) := by
  have hcontains := h.contains
  rw [tagFormat.encode_append, tagFormat.encode_cons] at hcontains
  refine ⟨fun x hx => h.fits x (List.mem_append_left _ hx), h.fits t (by simp),
    fun x hx => h.fits x (by simp [hx]), hcontains, ?_⟩
  rw [tagFormat.encode_append, tagFormat.encode_cons, List.length_append, List.length_append]

/-- The relay tag of a request is taken out, and a new one is added to what is left. -/
theorem addRelayTag_eq (e : Endian) (tailroom : ℕ) (stack : ℕ → Byte) (h : HasTags skb tags)
    (hold : (relayValue tags).length ≤ 28) :
    ∃ f room, addRelayTag e tailroom stack skb =
        nat25AddPppoeTag e room (relayTag stack (relayValue tags) skb.sa) f ∧
      f.Contains pppoeTags (tagFormat.encode (others tags)) ∧
      f.be16 pppoeLength = (tagFormat.encode (others tags)).length ∧
      f.len + (tagFormat.encode tags).length =
        skb.len + (tagFormat.encode (others tags)).length ∧
      room + f.len = tailroom + skb.len ∧ ∀ i < pppoeLength, f.data i = skb.data i := by
  unfold addRelayTag
  cases hrelay : relayOf tags with
  | none =>
    obtain ⟨hnone, hothers⟩ := relayOf_eq_none hrelay
    rw [h.find_eq_none hnone, relayValue, hrelay, hothers]
    exact ⟨skb, tailroom, rfl, h.contains, h.length, rfl, rfl, fun _ _ => rfl⟩
  | some t =>
    obtain ⟨pre, post, rfl, hpre, ht, hothers⟩ := relayOf_eq_some hrelay
    obtain ⟨hfpre, hft, hfpost, hcontains, hlen⟩ := h.of_append
    obtain ⟨htag, -⟩ := Skb.contains_append.mp (Skb.contains_append.mp hcontains).2
    obtain ⟨-, hlenfield, hbody⟩ := contains_tag htag hft
    have hvalue : relayValue (pre ++ t :: post) = t.body := by rw [relayValue, hrelay]; rfl
    rw [hvalue] at hold ⊢
    have hinside := h.inside
    have henc : (tagFormat.enc t).length = tagHdrLen + t.body.length := Tlv.Format.length_enc _ _
    obtain ⟨g, hg, hglen, hgsame, hgcontains⟩ :=
      pullAndMerge_contains hcontains (by rw [hlen] at hinside; omega)
    rw [h.find_eq_some hpre ht]
    dsimp only
    have hbytes : skb.bytes (pppoeTags + (tagFormat.encode pre).length + tagHdrLen) t.body.length =
        t.body := hbody
    rw [hlenfield, if_neg (by simp only [sizeofTagBuf, tagHdrLen, relayLen]; omega), ← henc, hg,
      Option.bind_some, hbytes, hothers, tagFormat.encode_append]
    have hptr : pppoeTags = pppoeLength + 2 := rfl
    refine ⟨_, _, rfl, ?_, ?_, ?_, ?_, fun i hi => ?_⟩
    · exact hgcontains.congr fun i hi _ => Skb.data_store_of_ne _ _ _ (by omega) (by omega)
    · have hfield := h.length
      have hlt : skb.be16 pppoeLength < 65536 := by
        rw [Skb.be16_eq_load]
        exact BitVec.isLt _
      rw [Skb.be16_eq_load, Skb.load_store, hfield, BitVec.toNat_sub, BitVec.toNat_ofNat,
        BitVec.toNat_ofNat, List.length_append]
      omega
    · rw [Skb.len_store, hglen, hlen, List.length_append]
      omega
    · rw [Skb.len_store, hglen]
      omega
    · rw [Skb.data_store_of_ne _ _ _ (by omega) (by omega), hgsame i (by omega)]

/-- The tags of a request with the new relay tag. -/
def requestTags (mac : EthAddr) (tags : List Tag) : List Tag :=
  relayElem mac (relayValue tags) :: others tags

theorem length_encode_requestTags (mac : EthAddr) (tags : List Tag) :
    (tagFormat.encode (requestTags mac tags)).length =
      tagHdrLen + relayLen + (relayValue tags).length +
        (tagFormat.encode (others tags)).length := by
  rw [requestTags, tagFormat.encode_cons, List.length_append, length_enc_relayElem]

/-- The request is rewritten as it should be if and only if the host has the order of the network,
and the length of the new tags can be told. -/
theorem addRelayTag_iff (e : Endian) (stack : ℕ → Byte) (h : HasTags skb tags)
    (hold : (relayValue tags).length ≤ 28)
    (hroom : (tagFormat.encode (requestTags skb.sa tags)).length ≤
      (tagFormat.encode tags).length + tailroom) :
    (∃ g, addRelayTag e tailroom stack skb = some g ∧ HasTags g (requestTags skb.sa tags)) ↔
      e = .big ∧ (tagFormat.encode (requestTags skb.sa tags)).length ≤ 65535 := by
  obtain ⟨f, room, hadd, hcontains, hlen, hflen, hfroom, hfsame⟩ :=
    addRelayTag_eq e tailroom stack h hold
  have hdata := relayTag_len skb.sa (relayValue tags) e stack hold
  have hnew := length_encode_requestTags skb.sa tags
  have hinside := h.inside
  have hfits : tagFormat.Fits (others tags) := fun x hx => h.fits x (List.mem_of_mem_eraseP hx)
  constructor
  · rintro ⟨g, hg, htags⟩
    have hlt : g.be16 pppoeLength < 65536 := by
      rw [Skb.be16_eq_load]
      exact BitVec.isLt _
    have hfield := htags.length
    refine ⟨?_, by omega⟩
    cases e with
    | big => rfl
    | little =>
      -- the length is 256 times too long
      have hle : addedLen .little (relayTag stack (relayValue tags) skb.sa) ≤ room := by
        by_contra hgt
        rw [hadd, nat25AddPppoeTag, if_pos (Nat.not_le.mp hgt)] at hg
        cases hg
      obtain ⟨g', hg', -, -, hfield', -, -⟩ := nat25AddPppoeTag_contains hcontains hlen hle
      rw [hadd, hg'] at hg
      obtain rfl := Option.some.inj hg
      rw [hfield', hnew, hdata] at hfield
      simp only [tagHdrLen, relayLen] at hfield hnew
      omega
  · rintro ⟨rfl, hle⟩
    replace hdata : addedLen .big (relayTag stack (relayValue tags) skb.sa) =
      tagHdrLen + relayLen + (relayValue tags).length := hdata
    have hroom' : addedLen .big (relayTag stack (relayValue tags) skb.sa) ≤ room := by
      rw [hdata]
      omega
    obtain ⟨g, hg, hglen, -, hfield, hgtag, hgcontains⟩ :=
      nat25AddPppoeTag_contains hcontains hlen hroom'
    rw [hdata] at hglen hfield hgtag hgcontains
    refine ⟨g, hadd.trans hg, ?_, ?_, ?_, ?_⟩
    · refine tagFormat.fits_cons.mpr ⟨?_, hfits⟩
      rw [length_relayElem]
      show _ ≤ 65535
      simp only [relayLen]
      omega
    · rw [hfield, hnew]
      omega
    · rw [requestTags, tagFormat.encode_cons, Skb.contains_append, length_enc_relayElem]
      refine ⟨Skb.contains_of_getD fun i hi => ?_, hgcontains⟩
      rw [length_enc_relayElem] at hi
      rw [hgtag i hi, relayTag_eq _ _ _ hi]
    · rw [hglen, hnew]
      omega

end Request

/-! ## Answers -/

section Answer

variable {skb : Skb} {pre post : List Tag} {mac : EthAddr} {old : List Byte}

/-- The relay tag with the old value, if it is not empty. -/
def oldRelay (old : List Byte) : List Tag := if old = [] then [] else [⟨pttRelaySid, old⟩]

theorem enc_relayElem (mac : EthAddr) (old : List Byte) :
    tagFormat.enc (relayElem mac old) =
      tagFormat.hdr pttRelaySid (relayLen + old.length) ++
        (magicCode ++ (macBytes mac ++ old)) := by
  rw [Tlv.Format.enc, length_relayElem]
  rfl

theorem mac_of_contains {p : ℕ} (h : skb.Contains p (macBytes mac)) : skb.mac p = mac := by
  have hget (i : ℕ) (hi : i < 6) : skb.data (p + i) = (macBytes mac).getD i 0 := h.getD hi
  have h0 : skb.data p = mac.o0 := hget 0 (by decide)
  rw [Skb.mac, h0, hget 1 (by decide), hget 2 (by decide), hget 3 (by decide), hget 4 (by decide),
    hget 5 (by decide)]
  rfl

/-- What is read from the relay tag of an answer at `p`. -/
theorem read_relayElem {p : ℕ} (h : skb.Contains p (tagFormat.enc (relayElem mac old)))
    (hold : old.length ≤ 28) :
    skb.be16 (p + 2) = relayLen + old.length ∧ skb.bytes (p + tagHdrLen) 2 = magicCode ∧
      skb.mac (p + tagHdrLen + 2) = mac := by
  obtain ⟨-, hlen, hbody⟩ := contains_tag h (by
    rw [length_relayElem]
    simp only [relayLen]
    omega)
  obtain ⟨hmagic, hrest⟩ := Skb.contains_append.mp hbody
  obtain ⟨hmac, -⟩ := Skb.contains_append.mp hrest
  exact ⟨hlen.trans (length_relayElem mac old), hmagic, mac_of_contains hmac⟩

/-- The list of tags of an answer, without what the request has added. -/
def answerTags (pre : List Tag) (old : List Byte) (post : List Tag) : List Tag :=
  pre ++ (oldRelay old ++ post)

theorem da_congr {f g : Skb} (h : ∀ i < 6, g.data i = f.data i) : g.da = f.da := by
  rw [Skb.da, Skb.da, Skb.mac, Skb.mac, h 0 (by decide), h (0 + 1) (by decide),
    h (0 + 2) (by decide),
    h (0 + 3) (by decide), h (0 + 4) (by decide), h (0 + 5) (by decide)]

/-- The bytes `cs` of the tags are cut out, and the length is decreased. -/
theorem cut_contains {as bs cs : List Byte} {n : ℕ} (mac : EthAddr)
    (h : skb.Contains pppoeTags (as ++ (cs ++ bs)))
    (hlen : skb.be16 pppoeLength = as.length + (cs.length + bs.length))
    (hinside : pppoeTags + (as.length + (cs.length + bs.length)) ≤ skb.len) (hn : n = cs.length) :
    ∃ g, ((skb.setMac 0 mac).pullAndMerge (pppoeTags + as.length) n).map (fun g =>
        g.store .big pppoeLength (BitVec.ofNat 16 (skb.be16 pppoeLength) - BitVec.ofNat 16 n)) =
          some g ∧
      g.len = skb.len - cs.length ∧ g.da = mac ∧
      g.be16 pppoeLength = as.length + bs.length ∧ g.Contains pppoeTags (as ++ bs) := by
  subst hn
  have hptr : pppoeTags = 20 := rfl
  have hfield : pppoeLength = 18 := rfl
  have hset : (skb.setMac 0 mac).Contains pppoeTags (as ++ (cs ++ bs)) :=
    h.congr fun i hi _ => skb.data_setMac_of_le mac (by omega)
  obtain ⟨g, hg, hglen, hgsame, hgcontains⟩ :=
    pullAndMerge_contains hset (by rw [Skb.len_setMac]; omega)
  rw [hg, Option.map_some]
  refine ⟨_, rfl, hglen, ?_, ?_, ?_⟩
  · rw [da_congr (f := skb.setMac 0 mac), Skb.da, Skb.mac_setMac]
    intro i hi
    rw [Skb.data_store_of_ne _ _ _ (by omega) (by omega), hgsame i (by omega)]
  · have hlt : skb.be16 pppoeLength < 65536 := by
      rw [Skb.be16_eq_load]
      exact BitVec.isLt _
    rw [Skb.be16_eq_load, Skb.load_store, BitVec.toNat_sub, BitVec.toNat_ofNat, BitVec.toNat_ofNat]
    omega
  · exact hgcontains.congr fun i hi _ => Skb.data_store_of_ne _ _ _ (by omega) (by omega)

/-- A tag gets another length. -/
theorem store_tagLen {p n v : ℕ} {id : BitVec 16} (h : skb.Contains p (tagFormat.hdr id n)) :
    (skb.store .big (p + 2) (BitVec.ofNat 16 v)).Contains p (tagFormat.hdr id v) := by
  obtain ⟨h0, h⟩ := Skb.contains_cons.mp h
  obtain ⟨h1, -⟩ := Skb.contains_cons.mp h
  refine Skb.contains_cons.mpr ⟨?_, Skb.contains_cons.mpr ⟨?_, Skb.contains_cons.mpr ⟨?_,
    Skb.contains_cons.mpr ⟨?_, rfl⟩⟩⟩⟩
  · rw [Skb.data_store_of_ne _ _ _ (by omega) (by omega), h0]
  · rw [Skb.data_store_of_ne _ _ _ (by omega) (by omega), h1]
  · exact if_pos rfl
  · refine (if_neg ?_).trans (if_pos rfl)
    omega

/-- An answer with a relay tag goes to the client, without the tag or with the old value in it. -/
theorem takeRelayTag_eq (h : HasTags skb (pre ++ relayElem mac old :: post))
    (hpre : ∀ t ∈ pre, t.id ≠ pttRelaySid) (hold : old.length ≤ 28) :
    ∃ g, takeRelayTag skb = some g ∧ g.da = mac ∧ HasTags g (answerTags pre old post) := by
  obtain ⟨hfpre, -, hfpost, hcontains, hlen⟩ := h.of_append
  have hfield := h.length
  have hinside := h.inside
  rw [hlen, length_enc_relayElem] at hfield hinside
  obtain ⟨hrelay, -⟩ := Skb.contains_append.mp (Skb.contains_append.mp hcontains).2
  obtain ⟨htagLen, hmagic, hmac⟩ := read_relayElem hrelay hold
  have hfind := h.find_eq_some hpre (show (relayElem mac old).id = pttRelaySid from rfl)
  unfold takeRelayTag
  rw [hfind]
  dsimp only
  rw [htagLen, if_neg (by omega), if_neg (not_not.mpr hmagic), hmac]
  by_cases hempty : old = []
  · subst hempty
    rw [if_neg (by simp)]
    obtain ⟨g, hg, hglen, hgda, hgfield, hgcontains⟩ :=
      cut_contains (n := tagHdrLen + relayLen - 0) mac
      hcontains (by rw [hfield, length_enc_relayElem]) (by rwa [length_enc_relayElem])
      (by rw [length_enc_relayElem]; rfl)
    rw [length_enc_relayElem] at hglen
    refine ⟨g, hg, hgda, ?_⟩
    have hanswer : answerTags pre [] post = pre ++ post := rfl
    refine ⟨?_, ?_, ?_, ?_⟩
    · exact fun x hx => (List.mem_append.mp hx).elim (hfpre x) (hfpost x)
    · rw [hgfield, hanswer, tagFormat.encode_append, List.length_append]
    · rw [hanswer, tagFormat.encode_append]
      exact hgcontains
    · rw [hglen, hanswer, tagFormat.encode_append, List.length_append]
      omega
  · have hlt : relayLen < relayLen + old.length := by
      have hpos := List.length_pos_iff.mpr hempty
      omega
    have hmagicMac : (magicCode ++ macBytes mac).length = relayLen := rfl
    have hsplit : tagFormat.encode pre ++
        (tagFormat.enc (relayElem mac old) ++ tagFormat.encode post) =
          (tagFormat.encode pre ++ tagFormat.hdr pttRelaySid (relayLen + old.length)) ++
            ((magicCode ++ macBytes mac) ++ (old ++ tagFormat.encode post)) := by
      rw [enc_relayElem]
      simp only [List.append_assoc]
    have has : (tagFormat.encode pre ++ tagFormat.hdr pttRelaySid (relayLen + old.length)).length =
        (tagFormat.encode pre).length + tagHdrLen := by
      rw [List.length_append]
      rfl
    rw [hsplit] at hcontains
    obtain ⟨g, hg, hglen, hgda, hgfield, hgcontains⟩ := cut_contains mac hcontains
      (by rw [has, hmagicMac, hfield, List.length_append]; omega)
      (by rw [has, hmagicMac, List.length_append]; omega) hmagicMac.symm
    rw [has, ← Nat.add_assoc] at hg
    obtain ⟨g', hg', rfl⟩ := Option.map_eq_some_iff.mp hg
    rw [if_pos hlt, show tagHdrLen + relayLen - tagHdrLen = relayLen by omega, hg', Option.map_some]
    obtain ⟨skb', hskb'⟩ : ∃ skb', skb' = g'.store .big pppoeLength
      (BitVec.ofNat 16 (skb.be16 pppoeLength) - BitVec.ofNat 16 relayLen) := ⟨_, rfl⟩
    rw [← hskb'] at hglen hgda hgfield hgcontains ⊢
    rw [if_pos (show 0 < tagHdrLen by decide)]
    refine ⟨_, rfl, ?_⟩
    rw [Nat.add_sub_cancel_left]
    obtain ⟨hhead, htail⟩ := Skb.contains_append.mp hgcontains
    obtain ⟨hencpre, hhdr⟩ := Skb.contains_append.mp hhead
    have hptr : pppoeTags = 20 := rfl
    have hfieldPtr : pppoeLength = 18 := rfl
    have hanswer : answerTags pre old post = pre ++ (⟨pttRelaySid, old⟩ :: post) := by
      rw [answerTags, oldRelay, if_neg hempty]
      rfl
    have hanswerLen : (tagFormat.encode (answerTags pre old post)).length =
        (tagFormat.encode pre).length + (tagHdrLen + old.length +
          (tagFormat.encode post).length) := by
      rw [hanswer, tagFormat.encode_append, List.length_append, tagFormat.encode_cons,
        List.length_append, Tlv.Format.length_enc]
      rfl
    refine ⟨?_, ?_, ?_, ?_, ?_⟩
    · rw [da_congr, hgda]
      exact fun i hi => Skb.data_store_of_ne _ _ _ (by omega) (by omega)
    · rw [hanswer]
      intro x hx
      obtain hx | hx := List.mem_append.mp hx
      · exact hfpre x hx
      · obtain rfl | hx := List.mem_cons.mp hx
        · exact Nat.le_trans hold (by decide)
        · exact hfpost x hx
    · rw [hanswerLen, Skb.be16, Skb.data_store_of_ne _ _ _ (by omega) (by omega),
        Skb.data_store_of_ne _ _ _ (by omega) (by omega), ← Skb.be16, hgfield, has,
        List.length_append]
      omega
    · rw [hanswer, tagFormat.encode_append, Skb.contains_append, tagFormat.encode_cons,
        Tlv.Format.enc, List.append_assoc, Skb.contains_append]
      refine ⟨?_, store_tagLen hhdr, ?_⟩
      · exact hencpre.congr fun i _ hi => Skb.data_store_of_ne _ _ _ (by omega) (by omega)
      · rw [has] at htail
        have hhdrLen : ∀ n, (tagFormat.hdr pttRelaySid n).length = tagHdrLen := fun _ => rfl
        rw [hhdrLen, Nat.add_assoc]
        exact htail.congr fun i hi _ =>
          Skb.data_store_of_ne _ _ _ (by simp only [tagHdrLen] at hi; omega)
            (by simp only [tagHdrLen] at hi; omega)
    · rw [hanswerLen, Skb.len_store, hglen, hmagicMac]
      omega

end Answer

/-! ## Both ways -/

/-- PADI and PADR frames. -/
structure IsRequest (skb : Skb) : Prop where
  protocol : skb.protocol = ethPPppDisc
  sid : pppoeSid skb = [0, 0]
  code : isPadiPadr skb = true

/-- PADO and PADS frames. -/
structure IsAnswer (skb : Skb) : Prop where
  protocol : skb.protocol = ethPPppDisc
  code : isPadoPads skb = true

/-- The handler's functions for relay tags. -/
def relayPayload (pl : Payload) (e : Endian) (tailroom : ℕ) (stack : ℕ → Byte) : Payload :=
  { pl with addRelayTag := addRelayTag e tailroom stack, takeRelayTag := takeRelayTag }

section Both

variable {w : ℕ} {clk : Clock w} {pl : Payload} {env : Env w} {s : Adapter w} {e : Endian}
  {tailroom : ℕ} {stack : ℕ → Byte} {skb : Skb} {tags pre post : List Tag}

theorem packet_eq_pppoe (h : skb.protocol = ethPPppDisc) : packet skb = .pppoe := by
  unfold packet
  rw [h]
  rfl

theorem nat25DbHandle_request (hs : s.ethBrExtInfo.addPPPoETag = true) (h : IsRequest skb)
    (r : Option Skb) (hr : pl.addRelayTag skb = r) :
    nat25DbHandle clk pl .insert env skb s =
      { ret := if r.isSome then 0 else -1, skb := r.getD skb, adapter := s } := by
  unfold nat25DbHandle
  rw [packet_eq_pppoe h.protocol]
  dsimp only [handlePppoe]
  rw [if_pos h.sid, if_pos h.code, if_pos hs, hr]
  cases r <;> rfl

theorem nat25DbHandle_answer (hs : s.ethBrExtInfo.addPPPoETag = true) (h : IsAnswer skb)
    (r : Option Skb) (hr : pl.takeRelayTag skb = r) :
    nat25DbHandle clk pl .lookup env skb s =
      { ret := if r.isSome then 0 else -1, skb := r.getD skb, adapter := s } := by
  unfold nat25DbHandle
  rw [packet_eq_pppoe h.protocol]
  dsimp only [handlePppoe]
  rw [if_pos h.code, if_pos hs, hr]
  cases r <;> rfl

/-- A frame with the source `sa` in the discovery phase. -/
def pppoeFrame (sa : EthAddr) (code : Byte) (tags : List Tag) : Skb :=
  let len := BitVec.ofNat 16 (tagFormat.encode tags).length
  let bytes := macBytes broadcastMac ++ (macBytes sa ++ ([0x88, 0x63, 0x11, code, 0, 0,
    Endian.big.fst len, Endian.big.snd len] ++ tagFormat.encode tags))
  { data := fun i => bytes.getD i 0, len := bytes.length }

theorem hasTags_pppoeFrame (sa : EthAddr) (code : Byte) (hfits : tagFormat.Fits tags)
    (hlen : (tagFormat.encode tags).length ≤ 65535) : HasTags (pppoeFrame sa code tags) tags := by
  refine ⟨hfits, ?_, ?_, ?_⟩
  · have hfield : (pppoeFrame sa code tags).load .big pppoeLength =
        BitVec.ofNat 16 (tagFormat.encode tags).length := Endian.load_fst_snd .big _
    rw [Skb.be16_eq_load, hfield, BitVec.toNat_ofNat]
    omega
  · refine Skb.contains_of_getD fun i _ => ?_
    have hptr : pppoeTags + i = i + 20 := Nat.add_comm _ _
    rw [hptr]
    rfl
  · simp only [pppoeFrame, macBytes, List.length_append, List.length_cons, List.length_nil]
    simp only [pppoeTags, ethHlen]
    omega

/-- What an answer that brings the relay tag back is to become: a frame to the client, with the tags
that there were. -/
def AnswerKept (clk : Clock w) (pl : Payload) (env : Env w) (s : Adapter w) (mac : EthAddr)
    (tags : List Tag) : Prop :=
  ∀ answer pre post, IsAnswer answer →
    HasTags answer (pre ++ relayElem mac (relayValue tags) :: post) →
    (∀ t ∈ pre, t.id ≠ pttRelaySid) →
    (nat25DbHandle clk pl .lookup env answer s).ret = 0 ∧
      (nat25DbHandle clk pl .lookup env answer s).skb.da = mac ∧
      HasTags (nat25DbHandle clk pl .lookup env answer s).skb
        (pre ++ ((relayOf tags).toList ++ post))

theorem answerKept_iff (hs : s.ethBrExtInfo.addPPPoETag = true) {mac : EthAddr}
    (hold : (relayValue tags).length ≤ 28) :
    AnswerKept clk (relayPayload pl e tailroom stack) env s mac tags ↔
      ∀ t, relayOf tags = some t → t.body ≠ [] := by
  constructor
  · rintro h t ht hempty
    -- an answer with nothing but the relay tag
    have hvalue : relayValue tags = [] := by rw [relayValue, ht]; exact hempty
    have hfits : tagFormat.Fits [relayElem mac []] := by
      intro x hx
      rw [List.mem_singleton.mp hx, length_relayElem]
      exact Nat.le_of_ble_eq_true rfl
    have hlen : (tagFormat.encode [relayElem mac []]).length ≤ 65535 := by
      rw [tagFormat.encode_cons, List.length_append, length_enc_relayElem]
      decide
    have htags : HasTags (pppoeFrame mac 0x07 [relayElem mac []]) ([] ++ relayElem mac [] :: []) :=
      hasTags_pppoeFrame _ _ hfits hlen
    have hanswer : IsAnswer (pppoeFrame mac 0x07 [relayElem mac []]) := ⟨rfl, rfl⟩
    obtain ⟨g, hg, -, hkept⟩ := takeRelayTag_eq htags (by simp) (by simp)
    have hres := h _ [] [] hanswer (by rw [hvalue]; exact htags) (by simp)
    rw [nat25DbHandle_answer hs hanswer (some g) hg, ht] at hres
    have hlen := hkept.length.symm.trans hres.2.2.length
    rw [answerTags, oldRelay, if_pos rfl] at hlen
    simp only [List.nil_append, List.append_nil, Option.toList_some, tagFormat.encode_cons,
      Tlv.Format.length_enc, tagFormat.encode_nil, List.length_nil] at hlen
    have hpos : 0 < tagFormat.hlen := by decide
    omega
  · intro h answer pre post hanswer htags hpre
    obtain ⟨g, hg, hda, hkept⟩ := takeRelayTag_eq htags hpre hold
    have hold' : oldRelay (relayValue tags) = (relayOf tags).toList := by
      unfold oldRelay relayValue
      cases hrelay : relayOf tags with
      | none => rfl
      | some t =>
        obtain ⟨-, -, -, -, hid, -⟩ := relayOf_eq_some hrelay
        rw [Option.elim_some, if_neg (h t hrelay), ← hid]
        rfl
    rw [answerTags, hold'] at hkept
    rw [nat25DbHandle_answer hs hanswer (some g) hg]
    exact ⟨rfl, hda, hkept⟩

/-- A request goes out with the relay tag, and an answer that brings it back is as it should be. -/
structure RelayKept (clk : Clock w) (pl : Payload) (env : Env w) (s : Adapter w) (skb : Skb)
    (tags : List Tag) : Prop where
  insert_ret : (nat25DbHandle clk pl .insert env skb s).ret = 0
  insert : HasTags (nat25DbHandle clk pl .insert env skb s).skb (requestTags skb.sa tags)
  lookup : AnswerKept clk pl env s skb.sa tags

/-- With enough tailroom, the tags of a request with a relay tag of up to 28 bytes are kept if and
only if the host has the order of the network, the relay tag is not empty, and the new length can be
told. -/
theorem relayKept_iff (clk : Clock w) (pl : Payload) (env : Env w)
    (hs : s.ethBrExtInfo.addPPPoETag = true) (hreq : IsRequest skb) (htags : HasTags skb tags)
    (hold : (relayValue tags).length ≤ 28)
    (hroom : (tagFormat.encode (requestTags skb.sa tags)).length ≤
      (tagFormat.encode tags).length + tailroom) :
    RelayKept clk (relayPayload pl e tailroom stack) env s skb tags ↔
      e = .big ∧ (∀ t, relayOf tags = some t → t.body ≠ []) ∧
        (tagFormat.encode (requestTags skb.sa tags)).length ≤ 65535 := by
  have hinsert := addRelayTag_iff e stack htags hold hroom
  have hanswer : AnswerKept clk (relayPayload pl e tailroom stack) env s skb.sa tags ↔
      ∀ t, relayOf tags = some t → t.body ≠ [] := answerKept_iff hs hold
  have heq : ∀ r, addRelayTag e tailroom stack skb = r →
      nat25DbHandle clk (relayPayload pl e tailroom stack) .insert env skb s =
        { ret := if r.isSome then 0 else -1, skb := r.getD skb, adapter := s } :=
    fun r hr => nat25DbHandle_request hs hreq r hr
  constructor
  · rintro ⟨hret, hkept, hlookup⟩
    have hadd : ∃ g, addRelayTag e tailroom stack skb = some g ∧
        HasTags g (requestTags skb.sa tags) := by
      cases hg : addRelayTag e tailroom stack skb with
      | none =>
        rw [heq none hg] at hret
        exact absurd hret (show (-1 : ℤ) ≠ 0 by decide)
      | some g =>
        rw [heq (some g) hg] at hkept
        exact ⟨g, rfl, hkept⟩
    obtain ⟨hbig, hle⟩ := hinsert.mp hadd
    exact ⟨hbig, hanswer.mp hlookup, hle⟩
  · rintro ⟨hbig, hempty, hle⟩
    obtain ⟨g, hg, hkept⟩ := hinsert.mpr ⟨hbig, hle⟩
    refine ⟨?_, ?_, hanswer.mpr hempty⟩
    · rw [heq (some g) hg]
      rfl
    · rw [heq (some g) hg]
      exact hkept

end Both

/-! ## A request of a client -/

/-- A service of any name, and a relay tag. -/
def padiTags : List Tag := [⟨0x0101, []⟩, ⟨pttRelaySid, [7]⟩]

/-- A PADI of the host 2. -/
def padi : Skb := pppoeFrame (hostMac 2) 0x09 padiTags

theorem padi_isRequest : IsRequest padi := ⟨by decide, by decide, by decide⟩

theorem padi_hasTags : HasTags padi padiTags :=
  hasTags_pppoeFrame _ _ (show ∀ t ∈ padiTags, t.body.length ≤ 65535 by decide) (by decide)

/-- On a big-endian host it goes out with its tags. -/
theorem padi_kept :
    RelayKept clock100 (relayPayload samePayload .big 64 fun _ => 0)
      { bridgedSys none with jiffies := 0 } bridgedAdapter padi padiTags := by
  refine (relayKept_iff clock100 samePayload
    { bridgedSys none with jiffies := 0 } rfl padi_isRequest
    padi_hasTags (by decide) (by decide)).mpr ⟨rfl, fun t ht => ?_, by decide⟩
  have hrelay : relayOf padiTags = some ⟨pttRelaySid, [7]⟩ := rfl
  rw [hrelay] at ht
  cases ht
  decide

/-- On a little-endian one it does not go out. -/
theorem padi_not_kept :
    ¬ RelayKept clock100 (relayPayload samePayload .little 64 fun _ => 0)
      { bridgedSys none with jiffies := 0 } bridgedAdapter padi padiTags := by
  intro h
  have hnone : addRelayTag .little 64 (fun _ => 0) padi = none := rfl
  have hret := h.insert_ret
  rw [nat25DbHandle_request rfl padi_isRequest none hnone] at hret
  exact absurd hret (show (-1 : ℤ) ≠ 0 by decide)

end Rtl88x2cu.Nat25
