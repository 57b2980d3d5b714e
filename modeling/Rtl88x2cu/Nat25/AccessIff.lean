import Rtl88x2cu.Nat25.Access

/-!
# When the handler of frames stays inside a frame

For every protocol and method: how long a frame has to be, and what the lengths in it have to be,
for all accesses of `nat25_db_handle` to be inside the frame and for its loops to end.
`dbAccess_iff` puts the protocols together.
-/

namespace Rtl88x2cu.Nat25

open Bytes (Byte)
open OnesComplement Walker

/-! ## Accesses -/

section Need

variable {skb : Skb} {off n : ℕ} {k : Option Unit}

@[simp]
theorem need_eq_some : skb.need off n = some () ↔ off + n ≤ skb.len := by
  simp [Skb.need]

/-- One access after the other. -/
@[simp]
theorem bind_eq_some_unit {k k' : Option Unit} :
    (k.bind fun _ => k') = some () ↔ k = some () ∧ k' = some () := by
  cases k <;> simp

@[simp]
theorem logged_eq_some {log : Bool} : logged log k = some () ↔ (log = true → k = some ()) := by
  cases log <;> simp [logged]

end Need

variable {w : ℕ} (log : Bool) (method : Method) (s : Adapter w) (skb : Skb)

/-! ## Protocols without loops -/

/-- IP frames: the addresses are read, whatever the header length is. -/
def IpOk : Prop :=
  ethHlen + 1 ≤ skb.len ∧ (ipHdrLen skb < skb.len →
    match method with
    | .check => True
    | .insert => ethHlen + 16 ≤ skb.len ∧
        (ipSaddr skb ≠ zeroIp → log = true → ethHlen + 20 ≤ skb.len)
    | .lookup => ethHlen + 20 ≤ skb.len)

theorem ipAccess_iff : ipAccess log method skb = some () ↔ IpOk log method skb := by
  unfold ipAccess IpOk
  simp only [Option.bind_eq_bind, bind_eq_some_unit, need_eq_some]
  refine and_congr_right fun _ => ?_
  by_cases hlen : skb.len ≤ ipHdrLen skb
  · rw [if_pos hlen]
    exact iff_of_true rfl fun h => absurd hlen (Nat.not_le.mpr h)
  · rw [if_neg hlen, forall_prop_of_true (Nat.not_le.mp hlen)]
    cases method with
    | check => exact iff_of_true rfl trivial
    | insert =>
      simp only [bind_eq_some_unit, need_eq_some]
      refine and_congr_right fun _ => ?_
      by_cases hsaddr : ipSaddr skb = zeroIp
      · rw [if_pos hsaddr]
        exact iff_of_true rfl fun h => absurd hsaddr h
      · rw [if_neg hsaddr, logged_eq_some, need_eq_some]
        exact ⟨fun h _ => h, fun h => h hsaddr⟩
    | lookup =>
      simp only [bind_eq_some_unit, logged_eq_some, need_eq_some]
      exact ⟨fun h => h.2, fun h => ⟨fun _ => h, h⟩⟩

/-- ARP frames: the lengths of the addresses are those that the frame tells. -/
def ArpOk : Prop :=
  ethHlen + 4 ≤ skb.len ∧ (skb.be16 (ethHlen + 2) = ethPIp →
    match method with
    | .check => True
    | .insert => arpPtr + 6 ≤ skb.len ∧ arpPtr + arHln skb + 4 ≤ skb.len
    | .lookup => ethHlen + 6 ≤ skb.len ∧
      arpPtr + arHln skb + (arHln skb + arPln skb) + 4 ≤ skb.len ∧
      arpPtr + (arHln skb + arPln skb) + 6 ≤ skb.len)

theorem arpAccess_iff : arpAccess method skb = some () ↔ ArpOk method skb := by
  unfold arpAccess ArpOk
  simp only [Option.bind_eq_bind, bind_eq_some_unit, need_eq_some]
  refine and_congr_right fun _ => ?_
  by_cases hpro : skb.be16 (ethHlen + 2) = ethPIp
  · rw [if_neg (not_not.mpr hpro), forall_prop_of_true hpro]
    cases method with
    | check => exact iff_of_true rfl trivial
    | insert =>
      simp only [bind_eq_some_unit, need_eq_some]
      -- the length of the hardware address is in front of the addresses
      have hhln : arpPtr + 6 ≤ skb.len → ethHlen + 4 + 1 ≤ skb.len := by
        simp only [arpPtr, ethHlen]
        omega
      exact ⟨fun h => ⟨h.1, h.2.2⟩, fun h => ⟨h.1, hhln h.1, h.2⟩⟩
    | lookup =>
      simp only [bind_eq_some_unit, need_eq_some]
  · rw [if_pos hpro]
    exact iff_of_true rfl fun h => absurd h hpro

/-- The header in front of IPX and AppleTalk. -/
def AppleHeadOk : Prop :=
  skb.protocol ≠ ethPIpx → ethHlen + 2 ≤ skb.len ∧ (skb.bytes ethHlen 2 ≠ [0xFF, 0xFF] →
    (skb.data ethHlen = 0xAA → ethHlen + 3 + 5 ≤ skb.len) ∧
    (skb.data ethHlen = 0xE0 → ethHlen + 3 + 2 ≤ skb.len))

theorem appleHeadAccess_iff : appleHeadAccess skb = some () ↔ AppleHeadOk skb := by
  unfold appleHeadAccess AppleHeadOk
  by_cases hipx : skb.protocol = ethPIpx
  · rw [if_pos hipx]
    exact iff_of_true rfl fun h => absurd hipx h
  · rw [if_neg hipx, forall_prop_of_true hipx]
    simp only [Option.bind_eq_bind, bind_eq_some_unit, need_eq_some]
    refine and_congr_right fun _ => ?_
    by_cases hff : skb.bytes ethHlen 2 = [0xFF, 0xFF]
    · rw [if_pos hff]
      exact iff_of_true rfl fun h => absurd hff h
    · rw [if_neg hff, forall_prop_of_true hff]
      by_cases haa : skb.data ethHlen = 0xAA
      · rw [if_pos haa, need_eq_some, haa]
        simp
      · rw [if_neg haa]
        by_cases he0 : skb.data ethHlen = 0xE0
        · rw [if_pos he0, need_eq_some, he0]
          simp
        · rw [if_neg he0]
          exact iff_of_true rfl ⟨fun h => absurd h haa, fun h => absurd h he0⟩

/-- IPX frames, the header at the offset `ipx`. -/
def IpxOk (ipx : ℕ) : Prop :=
  match method with
  | .check => ipx + 28 ≤ skb.len
  | .insert => ipx + 28 ≤ skb.len ∧
    (log = true ∨ skb.sa = skb.mac (ipx + 22) → ipx + 30 ≤ skb.len)
  | .lookup => ipx + 16 ≤ skb.len ∧ (s.macAddr = skb.mac (ipx + 10) → ipx + 18 ≤ skb.len)

theorem ipxAccess_iff (ipx : ℕ) :
    ipxAccess log method s skb ipx = some () ↔ IpxOk log method s skb ipx := by
  unfold ipxAccess IpxOk
  cases method with
  | check => exact need_eq_some
  | insert =>
    simp only [Option.bind_eq_bind, bind_eq_some_unit, logged_eq_some, need_eq_some]
    by_cases hnode : skb.sa = skb.mac (ipx + 22)
    · rw [if_pos hnode, need_eq_some, forall_prop_of_true (Or.inr hnode)]
      omega
    · rw [if_neg hnode, or_iff_left hnode]
      constructor
      · rintro ⟨hlog, h, -⟩
        exact ⟨h, hlog⟩
      · rintro ⟨h, hlog⟩
        exact ⟨hlog, h, by omega, rfl⟩
  | lookup =>
    simp only [Option.bind_eq_bind, bind_eq_some_unit, need_eq_some]
    by_cases hnode : s.macAddr = skb.mac (ipx + 10)
    · rw [if_pos hnode, need_eq_some, forall_prop_of_true hnode]
      omega
    · rw [if_neg hnode]
      constructor
      · rintro ⟨h, -⟩
        exact ⟨h, fun hnode' => absurd hnode' hnode⟩
      · rintro ⟨h, -⟩
        exact ⟨h, by omega, rfl⟩

/-- AARP frames, the header at the offset `ea`. -/
def AarpOk (ea : ℕ) : Prop :=
  ea + 5 ≤ skb.len ∧ (skb.data (ea + 4) = 6 → ea + 6 ≤ skb.len ∧ (skb.data (ea + 5) = 4 →
    match method with
    | .check => True
    | .insert => ea + 18 ≤ skb.len ∧ (log = true → ea + 28 ≤ skb.len)
    | .lookup => ea + 28 ≤ skb.len))

theorem aarpAccess_iff (ea : ℕ) : aarpAccess log method skb ea = some () ↔
    AarpOk log method skb ea := by
  unfold aarpAccess AarpOk
  simp only [Option.bind_eq_bind, bind_eq_some_unit, need_eq_some]
  refine and_congr Iff.rfl ?_
  by_cases hhw : skb.data (ea + 4) = 6
  · rw [if_neg (not_not.mpr hhw), forall_prop_of_true hhw]
    simp only [bind_eq_some_unit, need_eq_some]
    refine and_congr Iff.rfl ?_
    by_cases hpa : skb.data (ea + 5) = 4
    · rw [if_neg (not_not.mpr hpa), forall_prop_of_true hpa]
      cases method with
      | check => exact iff_of_true rfl trivial
      | insert =>
        simp only [bind_eq_some_unit, logged_eq_some, need_eq_some]
        constructor
        · rintro ⟨-, hlog, h⟩
          exact ⟨h, fun hl => (hlog hl).2⟩
        · rintro ⟨h, hlog⟩
          exact ⟨by omega, fun hl => ⟨h, hlog hl⟩, h⟩
      | lookup =>
        simp only [bind_eq_some_unit, logged_eq_some, need_eq_some]
        constructor
        · rintro ⟨-, h, -⟩
          exact h
        · intro h
          exact ⟨fun _ => ⟨by omega, h⟩, h, by omega⟩
    · rw [if_pos hpa]
      exact iff_of_true rfl fun h => absurd h hpa
  · rw [if_pos hhw]
    exact iff_of_true rfl fun h => absurd h hhw

/-- DDP frames, the header at the offset `ddp`. -/
def DdpOk (ddp : ℕ) : Prop :=
  match method with
  | .check => True
  | .insert => ddp + 10 ≤ skb.len
  | .lookup => ddp + 9 ≤ skb.len ∧ (log = true → ddp + 10 ≤ skb.len)

theorem ddpAccess_iff (ddp : ℕ) : ddpAccess log method skb ddp = some () ↔
    DdpOk log method skb ddp := by
  unfold ddpAccess DdpOk
  cases method with
  | check => exact iff_of_true rfl trivial
  | insert =>
    simp only [Option.bind_eq_bind, bind_eq_some_unit, logged_eq_some, need_eq_some]
    constructor
    · rintro ⟨-, -, h⟩
      exact h
    · intro h
      exact ⟨fun _ => h, by omega, h⟩
  | lookup =>
    simp only [Option.bind_eq_bind, bind_eq_some_unit, logged_eq_some, need_eq_some]
    constructor
    · rintro ⟨hlog, -, h⟩
      exact ⟨h, hlog⟩
    · rintro ⟨h, hlog⟩
      exact ⟨hlog, by omega, h⟩

/-! ## The tags of PPPoE -/

section Tags

variable {skb : Skb} {fin length : ℕ} {type : BitVec 16}

/-- An iteration that does not fail does the same with a function that reads more. -/
theorem findTagStep_mono {rd rd' : ℕ → Option Byte} (hle : ∀ i b, rd i = some b → rd' i = some b)
    {q : ℕ} {nx : Next (Option ℕ)} (h : findTagStep rd fin type q = some nx) :
    findTagStep rd' fin type q = some nx := by
  unfold findTagStep at h ⊢
  by_cases hq : q < fin
  · rw [if_pos hq] at h ⊢
    obtain ⟨b0, h0, h⟩ := Option.bind_eq_some_iff.mp h
    obtain ⟨b1, h1, h⟩ := Option.bind_eq_some_iff.mp h
    obtain ⟨b2, h2, h⟩ := Option.bind_eq_some_iff.mp h
    obtain ⟨b3, h3, h⟩ := Option.bind_eq_some_iff.mp h
    simp only [hle _ _ h0, hle _ _ h1, hle _ _ h2, hle _ _ h3, Option.bind_eq_bind,
      Option.bind_some]
    exact h
  · rw [if_neg hq] at h ⊢
    exact h

theorem inside_le_anywhere (skb : Skb) (i : ℕ) (b : Byte) (h : skb.inside i = some b) :
    skb.anywhere i = some b := by
  unfold Skb.inside at h
  split_ifs at h
  exact h

/-- An iteration reads the header of a tag. -/
theorem isSome_findTagStep {q : ℕ} :
    (findTagStep skb.inside fin type q).isSome = true ↔ (q < fin → q + 4 ≤ skb.len) := by
  unfold findTagStep
  by_cases hq : q < fin
  · rw [if_pos hq, forall_prop_of_true hq]
    by_cases hlen : q + 4 ≤ skb.len
    · have hread (i : ℕ) (hi : i < 4) : skb.inside (q + i) = some (skb.data (q + i)) :=
        if_pos (by omega)
      have h0 : skb.inside q = some (skb.data q) := hread 0 (by decide)
      simp only [h0, hread 1 (by decide), hread 2 (by decide), hread 3 (by decide),
        Option.bind_eq_bind, Option.bind_some]
      exact iff_of_true (by split_ifs <;> rfl) hlen
    · have hlast : skb.inside (q + 3) = none := if_neg (by omega)
      refine iff_of_false (fun h => ?_) hlen
      simp [hlast] at h
  · rw [if_neg hq]
    exact iff_of_true rfl fun h => absurd h hq

theorem findTagStep_goto {q q' : ℕ} (h : findTagStep skb.anywhere fin type q = some (.goto q')) :
    q + 4 ≤ q' ∧ q < fin := by
  unfold findTagStep at h
  by_cases hq : q < fin
  · rw [if_pos hq] at h
    simp only [Skb.anywhere, Option.bind_eq_bind, Option.bind_some] at h
    split_ifs at h
    · cases h
    · obtain rfl := Next.goto.inj (Option.some.inj h)
      exact ⟨Nat.le_add_right _ _, hq⟩
  · rw [if_neg hq] at h
    cases h

/-- The search for a tag returns, whatever the tags are: an iteration goes on by a header at
least. -/
theorem nat25FindPppoeTag_anywhere (skb : Skb) (length : ℕ) (type : BitVec 16) :
    ∃ r, nat25FindPppoeTag skb.anywhere length type = some r := by
  have hmono : ∀ q q', findTagStep skb.anywhere (pppoeTags + length) type q = some (.goto q') →
      q ≤ q' ∧ q < pppoeTags + length := by
    intro q q' h
    obtain ⟨hle, hlt⟩ := findTagStep_goto h
    exact ⟨by omega, hlt⟩
  have hwalk := (walk_iff (P := fun _ => True) (p := pppoeTags) _ hmono).mpr fun q _ => by
    cases hs : findTagStep skb.anywhere (pppoeTags + length) type q with
    | none =>
      unfold findTagStep at hs
      simp only [Skb.anywhere, Option.bind_eq_bind, Option.bind_some] at hs
      split_ifs at hs
    | some nx =>
      cases nx with
      | done r => trivial
      | goto q' =>
        obtain ⟨hle, -⟩ := findTagStep_goto hs
        exact Nat.ne_of_gt (by omega)
  obtain ⟨n, r, hr, -⟩ := hwalk
  refine ⟨r, ?_⟩
  have hbound := walk_bound _ hmono hr
  rwa [Nat.add_sub_cancel_left] at hbound

variable (skb)

/-- The headers of the tags up to the first relay tag are inside the frame. -/
def TagsInside : Prop :=
  pppoeLength + 2 ≤ skb.len ∧
    ∀ q, Reaches (findTagStep skb.anywhere (pppoeTags + skb.be16 pppoeLength) pttRelaySid)
        pppoeTags q →
      q < pppoeTags + skb.be16 pppoeLength → q + tagHdrLen ≤ skb.len

/-- The search for the relay tag goes on to `k` with what it finds. -/
theorem find_bind_iff {k : Option ℕ → Option Unit} {r : Option ℕ}
    (hr : nat25FindPppoeTag skb.anywhere (skb.be16 pppoeLength) pttRelaySid = some r) :
    (do skb.need pppoeLength 2
        k (← nat25FindPppoeTag skb.inside (skb.be16 pppoeLength) pttRelaySid)) = some () ↔
      TagsInside skb ∧ k r = some () := by
  have hiff (r' : Option ℕ) : nat25FindPppoeTag skb.inside (skb.be16 pppoeLength) pttRelaySid =
    some r' ↔
      nat25FindPppoeTag skb.anywhere (skb.be16 pppoeLength) pttRelaySid = some r' ∧ _ :=
    walk_restrict_iff fun q nx => findTagStep_mono (inside_le_anywhere skb)
  simp only [isSome_findTagStep] at hiff
  simp only [Option.bind_eq_bind, bind_eq_some_unit, need_eq_some, TagsInside, tagHdrLen]
  rw [and_assoc, Option.bind_eq_some_iff]
  refine and_congr_right fun _ => ?_
  constructor
  · rintro ⟨r', hr', hk⟩
    obtain ⟨hr'', hall⟩ := (hiff r').mp hr'
    obtain rfl := Option.some.inj (hr.symm.trans hr'')
    exact ⟨hall, hk⟩
  · rintro ⟨hall, hk⟩
    exact ⟨r, (hiff r).mpr ⟨hr, hall⟩, hk⟩

end Tags

section Pppoe

variable (e : Endian) (tailroom : ℕ)

/-- A relay tag with an old value of `old` bytes can be put in front of `length` bytes of tags, in a
frame of `len` bytes, or there is no tailroom for it. A little-endian host reads too much of
`tag_buf`. -/
def AddOk (room old length len : ℕ) : Prop :=
  match e with
  | .big => room < tagHdrLen + relayLen + old ∨ pppoeTags + length ≤ len
  | .little => room < tagHdrLen + 256 * (relayLen + old)

variable {skb : Skb}

theorem addAccess_iff (old : List Byte) (hold : old.length ≤ 28) (stack : ℕ → Byte)
    (mac : EthAddr) :
    addAccess e tailroom (relayTag stack old mac) skb = some () ↔
      AddOk e tailroom old.length (skb.be16 pppoeLength) skb.len := by
  have hdata := relayTag_len mac old e stack hold
  have hbuf : sizeofTagBuf = tagHdrLen + relayLen + 28 := rfl
  unfold addAccess
  by_cases hroom : tailroom < addedLen e (relayTag stack old mac)
  · rw [if_pos hroom]
    refine iff_of_true rfl ?_
    rw [hdata] at hroom
    cases e with
    | big => exact Or.inl hroom
    | little => exact hroom
  · rw [if_neg hroom]
    simp only [Option.bind_eq_bind, bind_eq_some_unit, need_eq_some]
    cases e with
    | big =>
      have hlen : addedLen .big (relayTag stack old mac) = tagHdrLen + relayLen + old.length :=
        hdata
      rw [if_neg (by omega)]
      simp only [AddOk]
      constructor
      · rintro ⟨-, h, -⟩
        exact Or.inr (by omega)
      · rintro (h | h)
        · omega
        · exact ⟨by omega, by omega, by omega, trivial⟩
    | little =>
      have hlen : addedLen .little (relayTag stack old mac) =
        tagHdrLen + 256 * (relayLen + old.length) := hdata
      rw [if_pos (by rw [hlen]; simp only [sizeofTagBuf, tagHdrLen, relayLen]; omega)]
      refine iff_of_false (fun h => by cases h.2.2.2) fun h => hroom ?_
      rw [hlen]
      exact h

/-- The length of the tags, in 16 bits, when `n` bytes are cut out. -/
theorem toNat_cut_length {n : ℕ} (hn : n ≤ 65535) :
    (BitVec.ofNat 16 (skb.be16 pppoeLength) - BitVec.ofNat 16 n).toNat =
      (skb.be16 pppoeLength + (65536 - n)) % 65536 := by
  have hlt : skb.be16 pppoeLength < 65536 := by
    rw [Skb.be16_eq_load]
    exact BitVec.isLt _
  rw [BitVec.toNat_sub, BitVec.toNat_ofNat, BitVec.toNat_ofNat]
  omega

variable (skb)

/-- PADI and PADR frames. -/
def RequestOk : Prop :=
  TagsInside skb ∧
    match nat25FindPppoeTag skb.anywhere (skb.be16 pppoeLength) pttRelaySid with
    | some (some p) =>
      skb.be16 (p + 2) ≤ 28 →
        p + (tagHdrLen + skb.be16 (p + 2)) ≤ skb.len ∧
        AddOk e (tailroom + (tagHdrLen + skb.be16 (p + 2))) (skb.be16 (p + 2))
          ((skb.be16 pppoeLength + (65536 - (tagHdrLen + skb.be16 (p + 2)))) % 65536)
          (skb.len - (tagHdrLen + skb.be16 (p + 2)))
    | _ => AddOk e tailroom 0 (skb.be16 pppoeLength) skb.len

theorem requestAccess_iff : requestAccess skb e tailroom = some () ↔ RequestOk e tailroom skb := by
  obtain ⟨r, hr⟩ := nat25FindPppoeTag_anywhere skb (skb.be16 pppoeLength) pttRelaySid
  unfold requestAccess RequestOk
  rw [find_bind_iff skb hr, hr]
  refine and_congr_right fun _ => ?_
  cases r with
  | none => exact addAccess_iff e tailroom [] (by decide) _ _
  | some p =>
    dsimp only
    by_cases hlong : sizeofTagBuf < skb.be16 (p + 2) + tagHdrLen + relayLen
    · rw [if_pos hlong]
      refine iff_of_true rfl fun h => ?_
      simp only [sizeofTagBuf, tagHdrLen, relayLen] at hlong
      omega
    · have hle : skb.be16 (p + 2) ≤ 28 := by
        simp only [sizeofTagBuf, tagHdrLen, relayLen] at hlong
        omega
      rw [if_neg hlong, forall_prop_of_true hle]
      simp only [Option.bind_eq_bind, bind_eq_some_unit, need_eq_some]
      rw [Nat.add_assoc p]
      refine and_congr_right fun hin => ?_
      rw [Skb.pullAndMerge, if_neg (by omega)]
      dsimp only
      have hold : (skb.bytes (p + tagHdrLen) (skb.be16 (p + 2))).length = skb.be16 (p + 2) :=
        Skb.length_bytes _ _ _
      rw [addAccess_iff e _ _ (by rw [hold]; exact hle), hold, Skb.be16_eq_load _ pppoeLength,
        Skb.load_store, Skb.len_store]
      rw [toNat_cut_length (by rw [tagHdrLen]; omega)]

/-- PADO and PADS frames. -/
def AnswerOk : Prop :=
  TagsInside skb ∧
    match nat25FindPppoeTag skb.anywhere (skb.be16 pppoeLength) pttRelaySid with
    | some (some p) =>
      relayLen ≤ skb.be16 (p + 2) →
        p + tagHdrLen + 2 ≤ skb.len ∧
        (skb.bytes (p + tagHdrLen) 2 = magicCode → p + tagHdrLen + relayLen ≤ skb.len)
    | _ => True

theorem answerAccess_iff : answerAccess skb = some () ↔ AnswerOk skb := by
  obtain ⟨r, hr⟩ := nat25FindPppoeTag_anywhere skb (skb.be16 pppoeLength) pttRelaySid
  unfold answerAccess AnswerOk
  rw [find_bind_iff skb hr, hr]
  refine and_congr_right fun _ => ?_
  cases r with
  | none => exact iff_of_true rfl trivial
  | some p =>
    dsimp only
    by_cases hshort : skb.be16 (p + 2) < relayLen
    · rw [if_pos hshort]
      exact iff_of_true rfl fun h => absurd hshort (Nat.not_lt.mpr h)
    · rw [if_neg hshort, forall_prop_of_true (Nat.not_lt.mp hshort)]
      simp only [Option.bind_eq_bind, bind_eq_some_unit, need_eq_some]
      refine and_congr_right fun _ => ?_
      by_cases hmagic : skb.bytes (p + tagHdrLen) 2 = magicCode
      · rw [if_neg (not_not.mpr hmagic), forall_prop_of_true hmagic, need_eq_some]
        rfl
      · rw [if_pos hmagic]
        exact iff_of_true rfl fun h => absurd h hmagic

/-- PPPoE frames. -/
def PppoeOk : Prop :=
  match method with
  | .check => ethHlen + 4 ≤ skb.len
  | .insert => ethHlen + 4 ≤ skb.len ∧
    (pppoeSid skb = [0, 0] ∧ isPadiPadr skb = true ∧ s.ethBrExtInfo.addPPPoETag = true →
      RequestOk e tailroom skb)
  | .lookup => ethHlen + 2 ≤ skb.len ∧ (isPadoPads skb = false → ethHlen + 4 ≤ skb.len) ∧
    (isPadoPads skb = true ∧ s.ethBrExtInfo.addPPPoETag = true → AnswerOk skb)

theorem pppoeAccess_iff :
    pppoeAccess method s skb e tailroom = some () ↔ PppoeOk method s e tailroom skb := by
  unfold pppoeAccess PppoeOk
  cases method with
  | check => exact need_eq_some
  | insert =>
    simp only [Option.bind_eq_bind, bind_eq_some_unit, need_eq_some]
    refine and_congr_right fun hlen => ?_
    by_cases hsid : pppoeSid skb = [0, 0]
    · rw [if_neg (not_not.mpr hsid)]
      simp only [bind_eq_some_unit, need_eq_some]
      rw [and_iff_right (by omega : ethHlen + 1 + 1 ≤ skb.len)]
      by_cases hadd : (isPadiPadr skb && s.ethBrExtInfo.addPPPoETag) = true
      · rw [if_pos hadd, requestAccess_iff]
        rw [Bool.and_eq_true] at hadd
        exact ⟨fun h _ => h, fun h => h ⟨hsid, hadd⟩⟩
      · rw [if_neg hadd]
        rw [Bool.and_eq_true] at hadd
        exact iff_of_true rfl fun h => absurd h.2 hadd
    · rw [if_pos hsid]
      exact iff_of_true rfl fun h => absurd h.1 hsid
  | lookup =>
    simp only [Option.bind_eq_bind, bind_eq_some_unit, need_eq_some]
    refine and_congr Iff.rfl ?_
    by_cases hpado : isPadoPads skb = true
    · rw [if_pos hpado]
      by_cases hadd : s.ethBrExtInfo.addPPPoETag = true
      · rw [if_pos hadd, answerAccess_iff]
        exact ⟨fun h => ⟨fun h' => absurd hpado (ne_true_of_eq_false h'), fun _ => h⟩,
          fun h => h.2 ⟨hpado, hadd⟩⟩
      · rw [if_neg hadd]
        exact iff_of_true rfl
          ⟨fun h' => absurd hpado (ne_true_of_eq_false h'), fun h => absurd h.2 hadd⟩
    · rw [if_neg hpado, need_eq_some]
      exact ⟨fun h => ⟨fun _ => h, fun h' => absurd h'.1 hpado⟩,
        fun h => h.1 (eq_false_of_ne_true hpado)⟩

end Pppoe

/-! ## The options of neighbour discovery -/

section Options

variable {skb : Skb} {fin n p : ℕ} {tag : Byte}

/-- A link-layer address at `q`, in options that end at `fin`. -/
def AtAddr (skb : Skb) (fin : ℕ) (tag : Byte) (q : ℕ) : Prop :=
  skb.data q = tag ∧ skb.data (q + 1) = 1 ∧ 8 ≤ fin - q

theorem scanTlvStep_anywhere (skb : Skb) (tag : Byte) {q : ℕ} (hq : q < fin) :
    (AtAddr skb fin tag q ∧ scanTlvStep skb.anywhere fin tag 1 q = some (.done (some (q + 2)))) ∨
      (¬ AtAddr skb fin tag q ∧ scanTlvStep skb.anywhere fin tag 1 q =
        some (.goto (q + (skb.data (q + 1)).toNat * 8))) := by
  unfold scanTlvStep
  rw [if_pos hq]
  simp only [Skb.anywhere, Option.bind_eq_bind, Option.bind_some]
  by_cases hat : AtAddr skb fin tag q
  · exact Or.inl ⟨hat, if_pos hat⟩
  · exact Or.inr ⟨hat, if_neg hat⟩

theorem scanTlvStep_mono {rd rd' : ℕ → Option Byte} (hle : ∀ i b, rd i = some b → rd' i = some b)
    {q : ℕ} {nx : Next (Option ℕ)} (h : scanTlvStep rd fin tag 1 q = some nx) :
    scanTlvStep rd' fin tag 1 q = some nx := by
  unfold scanTlvStep at h ⊢
  by_cases hq : q < fin
  · rw [if_pos hq] at h ⊢
    obtain ⟨b0, h0, h⟩ := Option.bind_eq_some_iff.mp h
    obtain ⟨b1, h1, h⟩ := Option.bind_eq_some_iff.mp h
    simp only [hle _ _ h0, hle _ _ h1, Option.bind_eq_bind, Option.bind_some]
    exact h
  · rw [if_neg hq] at h ⊢
    exact h

/-- An iteration reads the type and the length of an option. -/
theorem isSome_scanTlvStep {q : ℕ} :
    (scanTlvStep skb.inside fin tag 1 q).isSome = true ↔ (q < fin → q + 2 ≤ skb.len) := by
  unfold scanTlvStep
  by_cases hq : q < fin
  · rw [if_pos hq, forall_prop_of_true hq]
    by_cases hlen : q + 2 ≤ skb.len
    · have h0 : skb.inside q = some (skb.data q) := if_pos (by omega)
      have h1 : skb.inside (q + 1) = some (skb.data (q + 1)) := if_pos (by omega)
      simp only [h0, h1, Option.bind_eq_bind, Option.bind_some]
      exact iff_of_true (by split_ifs <;> rfl) hlen
    · have hlast : skb.inside (q + 1) = none := if_neg (by omega)
      refine iff_of_false (fun h => ?_) hlen
      simp [hlast] at h
  · rw [if_neg hq]
    exact iff_of_true rfl fun h => absurd h hq

/-- The scan ends if and only if no option on its way has the length zero. -/
theorem scanTlv_ends_iff (skb : Skb) (fin : ℕ) (tag : Byte) (p : ℕ) :
    (∃ n r, walk (scanTlvStep skb.anywhere fin tag 1) n p = some r) ↔
      ∀ q, Reaches (scanTlvStep skb.anywhere fin tag 1) p q → q < fin →
        AtAddr skb fin tag q ∨ skb.data (q + 1) ≠ 0 := by
  have hiff := walk_iff (P := fun _ => True) (p := p) fin
    fun q q' (hs : scanTlvStep skb.anywhere fin tag 1 q = some (.goto q')) => scanTlvStep_goto hs
  simp only [and_true] at hiff
  rw [hiff]
  refine forall_congr' fun q => forall_congr' fun _ => ?_
  by_cases hq : q < fin
  · rw [forall_prop_of_true hq]
    obtain ⟨hat, hs⟩ | ⟨hat, hs⟩ := scanTlvStep_anywhere skb tag hq
    · rw [hs]
      exact iff_of_true trivial (Or.inl hat)
    · rw [hs, or_iff_right hat]
      refine not_congr ?_
      rw [← BitVec.toNat_inj]
      show q + (skb.data (q + 1)).toNat * 8 = q ↔ (skb.data (q + 1)).toNat = 0
      omega
  · have hs : scanTlvStep skb.anywhere fin tag 1 q = some (.done none) := if_neg hq
    rw [hs]
    exact iff_of_true trivial fun h => absurd h hq

variable (skb)

/-- The options of a neighbour discovery message, up to the link-layer address: their headers are
inside the frame, and none has the length zero. -/
def OptionsOk : Prop :=
  ∀ hdr tag, ndOption (skb.data icmp6Ptr) = some (hdr, tag) → hdr ≤ skb.len - icmp6Ptr →
    ∀ q, Reaches (scanTlvStep skb.anywhere skb.len tag 1) (icmp6Ptr + hdr) q → q < skb.len →
      q + 2 ≤ skb.len ∧ (AtAddr skb skb.len tag q ∨ skb.data (q + 1) ≠ 0)

theorem findLinkLayerAddr_iff (hlen : icmp6Ptr < skb.len) (r : Option ℕ) :
    (∃ n, findLinkLayerAddr skb.inside n icmp6Ptr (skb.len - icmp6Ptr) = some r) ↔
      OptionsOk skb ∧
        findLinkLayerAddr skb.anywhere skb.len icmp6Ptr (skb.len - icmp6Ptr) = some r := by
  have hfin : icmp6Ptr + (skb.len - icmp6Ptr) = skb.len := by omega
  have hbound : findLinkLayerAddr skb.anywhere skb.len icmp6Ptr (skb.len - icmp6Ptr) = some r ↔
      ∃ n, findLinkLayerAddr skb.anywhere n icmp6Ptr (skb.len - icmp6Ptr) = some r := by
    constructor
    · exact fun h => ⟨_, h⟩
    · rintro ⟨n, h⟩
      have hb := findLinkLayerAddr_bound h
      rwa [hfin] at hb
  have htype : skb.inside icmp6Ptr = some (skb.data icmp6Ptr) := if_pos hlen
  rw [hbound]
  unfold findLinkLayerAddr OptionsOk
  simp only [htype, Skb.anywhere, Option.bind_eq_bind, Option.bind_some]
  cases hopt : ndOption (skb.data icmp6Ptr) with
  | none => simp
  | some o =>
    obtain ⟨hdr, tag⟩ := o
    dsimp only
    by_cases hhdr : hdr ≤ skb.len - icmp6Ptr
    · simp only [if_pos hhdr, hfin]
      have hends := scanTlv_ends_iff skb skb.len tag (icmp6Ptr + hdr)
      have hrestrict {n : ℕ} : walk (scanTlvStep skb.inside skb.len tag 1) n (icmp6Ptr + hdr) =
        some r ↔
          walk (scanTlvStep skb.anywhere skb.len tag 1) n (icmp6Ptr + hdr) = some r ∧ _ :=
        walk_restrict_iff fun q nx => scanTlvStep_mono (inside_le_anywhere skb)
      constructor
      · rintro ⟨n, hn⟩
        obtain ⟨hwalk, hall⟩ := hrestrict.mp hn
        refine ⟨?_, n, hwalk⟩
        rintro hdr' tag' ho - q hq hlt
        cases ho
        exact ⟨isSome_scanTlvStep.mp (hall q hq) hlt, hends.mp ⟨n, r, hwalk⟩ q hq hlt⟩
      · rintro ⟨hok, n, hwalk⟩
        refine ⟨n, hrestrict.mpr ⟨hwalk, fun q hq => ?_⟩⟩
        exact isSome_scanTlvStep.mpr fun hlt => (hok hdr tag rfl hhdr q hq hlt).1
    · simp only [if_neg hhdr]
      constructor
      · rintro ⟨n, hn⟩
        refine ⟨?_, n, hn⟩
        rintro hdr' tag' ho hle
        cases ho
        exact absurd hle hhdr
      · exact fun h => ⟨0, h.2.choose_spec⟩

theorem OptionsOk.find_ends (h : OptionsOk skb) (hlen : icmp6Ptr < skb.len) :
    ∃ r, findLinkLayerAddr skb.anywhere skb.len icmp6Ptr (skb.len - icmp6Ptr) = some r := by
  have hfin : icmp6Ptr + (skb.len - icmp6Ptr) = skb.len := by omega
  have hends : ∃ n r, findLinkLayerAddr skb.anywhere n icmp6Ptr (skb.len - icmp6Ptr) = some r := by
    unfold findLinkLayerAddr
    simp only [Skb.anywhere, Option.bind_eq_bind, Option.bind_some]
    cases hopt : ndOption (skb.data icmp6Ptr) with
    | none => exact ⟨0, none, rfl⟩
    | some o =>
      obtain ⟨hdr, tag⟩ := o
      dsimp only
      by_cases hhdr : hdr ≤ skb.len - icmp6Ptr
      · simp only [if_pos hhdr, hfin]
        exact (scanTlv_ends_iff skb _ _ _).mpr fun q hq hlt => (h hdr tag hopt hhdr q hq hlt).2
      · simp only [if_neg hhdr]
        exact ⟨0, none, rfl⟩
  obtain ⟨n, r, hr⟩ := hends
  have hb := findLinkLayerAddr_bound hr
  rw [hfin] at hb
  exact ⟨r, hb⟩

/-- IPv6 frames. -/
def Ipv6Ok (e : Endian) : Prop :=
  ipv6Malformed skb = false → method = .insert → ipv6Saddr skb ≠ zeroIpv6 → isIcmpv6 skb = true →
    OptionsOk skb ∧
      ((findLinkLayerAddr skb.anywhere skb.len icmp6Ptr (skb.len - icmp6Ptr)).join.isSome = true →
        icmp6Ptr + (skb.load e payloadLen).toNat ≤ skb.len)

/-- The IPv6 header of a packet that is not malformed is inside the frame. -/
theorem ipv6_len (hskb : ethHlen ≤ skb.len) (hmal : ¬ ipv6Malformed skb = true) :
    ethHlen + 40 < skb.len := by
  have hlt : ¬ (skb.len + (2 ^ 32 - ethHlen)) % 2 ^ 32 ≤ 40 := by
    simpa [ipv6Malformed] using hmal
  simp only [ethHlen] at hlt hskb ⊢
  omega

theorem ipv6Access_iff (e : Endian) (hskb : ethHlen ≤ skb.len) :
    (∃ n, ipv6Access log method skb e n = some ()) ↔ Ipv6Ok method skb e := by
  unfold ipv6Access Ipv6Ok
  by_cases hmal : ipv6Malformed skb = true
  · simp only [if_pos hmal]
    exact iff_of_true ⟨0, trivial⟩ fun h => absurd hmal (ne_true_of_eq_false h)
  · rw [forall_prop_of_true (eq_false_of_ne_true hmal)]
    simp only [if_neg hmal]
    have hlen := ipv6_len skb hskb hmal
    have hptr : icmp6Ptr = ethHlen + 40 := rfl
    cases method with
    | check => exact iff_of_true ⟨0, rfl⟩ nofun
    | lookup =>
      refine iff_of_true ⟨0, ?_⟩ nofun
      simp only [Option.bind_eq_bind, bind_eq_some_unit, logged_eq_some, need_eq_some]
      exact ⟨fun _ => by omega, by omega⟩
    | insert =>
      rw [forall_prop_of_true rfl]
      simp only [Option.bind_eq_bind, bind_eq_some_unit, logged_eq_some, need_eq_some]
      have hhead : (log = true → ethHlen + 8 + 32 ≤ skb.len) ∧ ethHlen + 8 + 16 ≤ skb.len :=
        ⟨fun _ => by omega, by omega⟩
      by_cases hsaddr : ipv6Saddr skb = zeroIpv6
      · simp only [if_pos hsaddr]
        exact iff_of_true ⟨0, hhead.1, hhead.2, trivial⟩ fun h => absurd hsaddr h
      · rw [forall_prop_of_true hsaddr]
        by_cases hicmp : isIcmpv6 skb = true
        · rw [forall_prop_of_true hicmp]
          simp only [if_neg hsaddr, if_pos hicmp, bind_eq_some_unit, need_eq_some]
          have hfind := findLinkLayerAddr_iff skb (by omega : icmp6Ptr < skb.len)
          constructor
          · rintro ⟨n, -, -, -, hn⟩
            obtain ⟨r, hr, hk⟩ := Option.bind_eq_some_iff.mp hn
            obtain ⟨hok, hfound⟩ := (hfind r).mp ⟨n, hr⟩
            refine ⟨hok, fun hsome => ?_⟩
            rw [hfound] at hsome
            cases r with
            | none => cases hsome
            | some addr =>
              simp only [icmp6SumAccess, Option.bind_eq_bind, bind_eq_some_unit, need_eq_some] at hk
              exact hk.2.2.2.2.2
          · rintro ⟨hok, hsum⟩
            obtain ⟨r, hr⟩ := hok.find_ends skb (by omega)
            obtain ⟨n, hn⟩ := (hfind r).mpr ⟨hok, hr⟩
            refine ⟨n, hhead.1, hhead.2, by omega, Option.bind_eq_some_iff.mpr ⟨r, hn, ?_⟩⟩
            cases r with
            | none => rfl
            | some addr =>
              have hin := (findLinkLayerAddr_some hr).2
              rw [hr] at hsum
              have hlong : ethHlen + 40 + 4 < skb.len := by
                rw [isIcmpv6, Bool.and_eq_true, decide_eq_true_eq, decide_eq_true_eq] at hicmp
                exact hicmp.2
              have hcksum : icmp6Cksum = ethHlen + 42 := rfl
              have hpayload : payloadLen = ethHlen + 4 := rfl
              simp only [icmp6SumAccess, Option.bind_eq_bind, bind_eq_some_unit, logged_eq_some,
                need_eq_some]
              exact ⟨fun _ => by omega, by omega, by omega, by omega, by omega, hsum rfl⟩
        · simp only [if_neg hsaddr, if_neg hicmp, bind_eq_some_unit, need_eq_some]
          exact iff_of_true ⟨0, hhead.1, hhead.2, by omega, trivial⟩ fun h => absurd h hicmp

end Options

/-! ## All protocols -/

/-- What a frame has to be for the handler to stay inside it and to return. -/
def AccessOk (e : Endian) (tailroom : ℕ) : Prop :=
  match packet skb with
  | .ip => IpOk log method skb
  | .arp => ArpOk method skb
  | .ipx off => AppleHeadOk skb ∧ IpxOk log method s skb off
  | .aarp off => AppleHeadOk skb ∧ AarpOk log method skb off
  | .ddp off => AppleHeadOk skb ∧ DdpOk log method skb off
  | .pppoe => PppoeOk method s e tailroom skb
  | .passed => True
  | .ipv6 => Ipv6Ok method skb e
  | .unknown => skb.protocol = ethPAtalk ∨ skb.protocol = ethPAarp → AppleHeadOk skb

/-- For a frame with an Ethernet header, all accesses are inside and the loops end if and only if
the lengths in the frame are right for its protocol and the method. -/
theorem dbAccess_iff (e : Endian) (tailroom : ℕ) (hskb : ethHlen ≤ skb.len) :
    (∃ n, dbAccess log method s skb e tailroom n = some ()) ↔
      AccessOk log method s skb e tailroom := by
  have hproto : 12 + 2 ≤ skb.len := hskb
  unfold dbAccess AccessOk
  simp only [Option.bind_eq_bind, bind_eq_some_unit, need_eq_some, and_iff_right hproto]
  cases packet skb with
  | ip => exact exists_const ℕ |>.trans (ipAccess_iff log method skb)
  | arp => exact exists_const ℕ |>.trans (arpAccess_iff method skb)
  | ipx off =>
    simp only [bind_eq_some_unit, exists_const]
    exact and_congr (appleHeadAccess_iff skb) (ipxAccess_iff log method s skb off)
  | aarp off =>
    simp only [bind_eq_some_unit, exists_const]
    exact and_congr (appleHeadAccess_iff skb) (aarpAccess_iff log method skb off)
  | ddp off =>
    simp only [bind_eq_some_unit, exists_const]
    exact and_congr (appleHeadAccess_iff skb) (ddpAccess_iff log method skb off)
  | pppoe => exact exists_const ℕ |>.trans (pppoeAccess_iff method s e tailroom skb)
  | passed => exact iff_of_true ⟨0, rfl⟩ trivial
  | ipv6 => exact ipv6Access_iff log method skb e hskb
  | unknown =>
    simp only [exists_const]
    by_cases happle : skb.protocol = ethPAtalk ∨ skb.protocol = ethPAarp
    · rw [if_pos happle, forall_prop_of_true happle]
      exact appleHeadAccess_iff skb
    · rw [if_neg happle]
      exact iff_of_true rfl fun h => absurd h happle

/-- The addresses of an IP packet of 20 bytes are looked up inside it. -/
theorem ipFrame_access :
    ∃ n, dbAccess true .lookup bridgedAdapter (ipFrame (hostMac 2) (hostMac 1) 1 2) .little 0 n =
      some () :=
  (dbAccess_iff true .lookup bridgedAdapter (ipFrame (hostMac 2) (hostMac 1) 1 2) .little 0
    (by decide)).mpr ⟨by decide, fun _ => by decide⟩

/-! ## A frame whose options do not end -/

/-- A neighbour solicitation of the host 2, with an option of the length zero. -/
def endlessSolicitation : Skb :=
  { data := fun i =>
      if i < 14 then [0x33, 0x33, 0, 0, 0, 1, 2, 0, 0, 0, 0, 2, 0x86, 0xdd].getD i 0
      else if i = 14 then 0x60
      else if i = 19 then 32
      else if i = 20 then 58
      else if i = 21 then 255
      else if i = 22 then 0xfe
      else if i = 23 then 0x80
      else if i = 37 then 2
      else if i = 38 then 0xff
      else if i = 39 then 2
      else if i = 53 then 1
      else if i = 54 then 135
      else 0
    len := 86 }

/-- The scan for its link-layer address never ends. -/
theorem endlessSolicitation_access :
    ¬ ∃ n, dbAccess false .insert bridgedAdapter endlessSolicitation .little 0 n = some () := by
  have hmal : ipv6Malformed endlessSolicitation = false := by decide
  have hpacket : packet endlessSolicitation = .ipv6 := by decide
  have hsaddr : ipv6Saddr endlessSolicitation ≠ zeroIpv6 := by decide
  have hicmp : isIcmpv6 endlessSolicitation = true := by decide
  rintro ⟨n, hn⟩
  unfold dbAccess at hn
  simp only [hpacket, Option.bind_eq_bind, bind_eq_some_unit] at hn
  obtain ⟨hok, -⟩ := (ipv6Access_iff false .insert endlessSolicitation .little (by decide)).mp
    ⟨n, hn.2⟩ hmal rfl hsaddr hicmp
  -- the first option is no address, and has the length zero
  obtain ⟨-, hat | hlen⟩ := hok 24 1 (by decide) (by decide) _ .refl (by decide)
  · exact absurd hat.1 (by decide)
  · exact absurd hlen (by decide)

end Rtl88x2cu.Nat25
