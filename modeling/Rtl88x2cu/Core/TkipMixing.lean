import Rtl88x2cu.Core.Tkip

/-!
# The key mixing loses nothing

The two phases of the TKIP key mixing (`core/rtw_security.c`) only ever add to a word of the block
something that is computed from other words. So each step can be undone, from the last one
backwards; the table and the temporal key do not matter.

`keyMixing_injective` says that the last twelve bytes of the RC4 key determine the transmitter's
address and the packet number.
-/

namespace Rtl88x2cu.Core.Tkip

open Bytes

/-- What has been added to a word can be taken away, if what it was computed from is known. -/
theorem eq_of_add_eq {n : ℕ} {f : BitVec n → BitVec n} {a b x y : BitVec n}
    (h : a + f x = b + f y) (hxy : x = y) : a = b := by
  rw [hxy] at h
  exact (BitVec.add_left_inj _).mp h

/-- The bytes of two words are the words. -/
theorem hi8_mk16 (hi lo : Byte) : hi8 (mk16 hi lo) = hi := by
  apply BitVec.eq_of_getLsbD_eq
  intro i h
  simp [hi8, mk16, h, show i < 16 by omega, show 8 + i < 16 by omega]

theorem lo8_mk16 (hi lo : Byte) : lo8 (mk16 hi lo) = lo := by
  apply BitVec.eq_of_getLsbD_eq
  intro i h
  simp [lo8, mk16, h]

theorem mk16_inj {hi lo hi' lo' : Byte} (h : mk16 hi lo = mk16 hi' lo') : hi = hi' ∧ lo = lo' := by
  have hhi := congrArg hi8 h
  have hlo := congrArg lo8 h
  rw [hi8_mk16, hi8_mk16] at hhi
  rw [lo8_mk16, lo8_mk16] at hlo
  exact ⟨hhi, hlo⟩

theorem eq_of_bytes {v w : BitVec 16} (hlo : lo8 v = lo8 w) (hhi : hi8 v = hi8 w) : v = w := by
  apply BitVec.eq_of_getLsbD_eq
  intro i hi
  rcases Nat.lt_or_ge i 8 with h | h
  · simpa [lo8, h] using congrArg (·.getLsbD i) hlo
  · simpa [hi8, h, show i - 8 < 8 by omega] using congrArg (·.getLsbD (i - 8)) hhi

/-! ## Phase 1 -/

/-- A turn of phase 1 can be undone, from the last word to the first one. -/
theorem phase1Step_injective (tk : List Byte) (i : ℕ) :
    Function.Injective (phase1Step tk · i) := by
  intro p q h
  obtain ⟨h0, h1, h2, h3, h4⟩ := P1k.mk.inj h
  have hp4 : p.p4 = q.p4 :=
    eq_of_add_eq ((BitVec.add_left_inj _).mp h4) (congrArg (· ^^^ tk16 tk (i % 2 + 0)) h3)
  have hp3 : p.p3 = q.p3 := eq_of_add_eq h3 (congrArg (· ^^^ tk16 tk (i % 2 + 6)) h2)
  have hp2 : p.p2 = q.p2 := eq_of_add_eq h2 (congrArg (· ^^^ tk16 tk (i % 2 + 4)) h1)
  have hp1 : p.p1 = q.p1 := eq_of_add_eq h1 (congrArg (· ^^^ tk16 tk (i % 2 + 2)) h0)
  -- the first word was changed with the last one as it was before the turn
  have hp0 : p.p0 = q.p0 := eq_of_add_eq h0 (congrArg (· ^^^ tk16 tk (i % 2 + 0)) hp4)
  rcases p
  rcases q
  simp_all

theorem foldl_phase1Step_injective (tk : List Byte) (l : List ℕ) :
    Function.Injective (l.foldl (phase1Step tk) ·) := by
  induction l with
  | nil => exact fun _ _ h => h
  | cons i l ih => exact ih.comp (phase1Step_injective tk i)

/-- Phase 1 determines the address and the high part of the packet number. -/
theorem phase1_injective (tk : List Byte) :
    Function.Injective fun x : Vector Byte 6 × BitVec 32 => phase1 tk x.1.toList x.2 := by
  rintro ⟨ta, iv32⟩ ⟨ta', iv32'⟩ h
  dsimp only at h
  rw [phase1, phase1] at h
  obtain ⟨h0, h1, h2, h3, h4⟩ := P1k.mk.inj (foldl_phase1Step_injective tk _ h)
  have hiv : iv32 = iv32' := by
    apply BitVec.eq_of_getLsbD_eq
    intro i hi
    rcases Nat.lt_or_ge i 16 with h | h
    · simpa [h] using congrArg (·.getLsbD i) h0
    · simpa [h, show i - 16 < 16 by omega] using congrArg (·.getLsbD (i - 16)) h1
  have hta : ta = ta' := by
    apply Vector.ext
    intro i hi
    have hget (v : Vector Byte 6) : v[i] = v.toList.getD i 0 := by simp [hi]
    rw [hget, hget]
    rcases i with _ | _ | _ | _ | _ | _ | _
    · exact (mk16_inj h2).2
    · exact (mk16_inj h2).1
    · exact (mk16_inj h3).2
    · exact (mk16_inj h3).1
    · exact (mk16_inj h4).2
    · exact (mk16_inj h4).1
    · omega
  rw [hta, hiv]

/-! ## Phase 2 -/

/-- `PPK`. -/
structure Ppk where
  ppk0 : BitVec 16
  ppk1 : BitVec 16
  ppk2 : BitVec 16
  ppk3 : BitVec 16
  ppk4 : BitVec 16
  ppk5 : BitVec 16
  deriving DecidableEq, Repr

/-- The first sweep of `phase2`, with the table. -/
def ppkMix (tk : List Byte) (p : Ppk) : Ppk :=
  let ppk0 := p.ppk0 + sBox (p.ppk5 ^^^ tk16 tk 0)
  let ppk1 := p.ppk1 + sBox (ppk0 ^^^ tk16 tk 1)
  let ppk2 := p.ppk2 + sBox (ppk1 ^^^ tk16 tk 2)
  let ppk3 := p.ppk3 + sBox (ppk2 ^^^ tk16 tk 3)
  let ppk4 := p.ppk4 + sBox (ppk3 ^^^ tk16 tk 4)
  let ppk5 := p.ppk5 + sBox (ppk4 ^^^ tk16 tk 5)
  ⟨ppk0, ppk1, ppk2, ppk3, ppk4, ppk5⟩

/-- The final sweep, with rotations. -/
def ppkRotate (tk : List Byte) (p : Ppk) : Ppk :=
  let ppk0 := p.ppk0 + rotR1 (p.ppk5 ^^^ tk16 tk 6)
  let ppk1 := p.ppk1 + rotR1 (ppk0 ^^^ tk16 tk 7)
  let ppk2 := p.ppk2 + rotR1 ppk1
  let ppk3 := p.ppk3 + rotR1 ppk2
  let ppk4 := p.ppk4 + rotR1 ppk3
  let ppk5 := p.ppk5 + rotR1 ppk4
  ⟨ppk0, ppk1, ppk2, ppk3, ppk4, ppk5⟩

/-- The block as `phase2` starts with it. -/
def ppkInit (p1k : P1k) (iv16 : BitVec 16) : Ppk :=
  ⟨p1k.p0, p1k.p1, p1k.p2, p1k.p3, p1k.p4, p1k.p4 + iv16⟩

/-- The little-endian bytes of the block. -/
def Ppk.bytes (p : Ppk) : List Byte :=
  [p.ppk0, p.ppk1, p.ppk2, p.ppk3, p.ppk4, p.ppk5].flatMap fun w => [lo8 w, hi8 w]

/-- The last twelve bytes of the RC4 key are the block after both sweeps. -/
theorem drop_phase2 (tk : List Byte) (p1k : P1k) (iv16 : BitVec 16) :
    (phase2 tk p1k iv16).drop 4 = (ppkRotate tk (ppkMix tk (ppkInit p1k iv16))).bytes := rfl

theorem ppkMix_injective (tk : List Byte) : Function.Injective (ppkMix tk) := by
  intro p q h
  obtain ⟨h0, h1, h2, h3, h4, h5⟩ := Ppk.mk.inj h
  have hp5 : p.ppk5 = q.ppk5 := eq_of_add_eq h5 (congrArg (· ^^^ tk16 tk 5) h4)
  have hp4 : p.ppk4 = q.ppk4 := eq_of_add_eq h4 (congrArg (· ^^^ tk16 tk 4) h3)
  have hp3 : p.ppk3 = q.ppk3 := eq_of_add_eq h3 (congrArg (· ^^^ tk16 tk 3) h2)
  have hp2 : p.ppk2 = q.ppk2 := eq_of_add_eq h2 (congrArg (· ^^^ tk16 tk 2) h1)
  have hp1 : p.ppk1 = q.ppk1 := eq_of_add_eq h1 (congrArg (· ^^^ tk16 tk 1) h0)
  have hp0 : p.ppk0 = q.ppk0 := eq_of_add_eq h0 (congrArg (· ^^^ tk16 tk 0) hp5)
  rcases p
  rcases q
  simp_all

theorem ppkRotate_injective (tk : List Byte) : Function.Injective (ppkRotate tk) := by
  intro p q h
  obtain ⟨h0, h1, h2, h3, h4, h5⟩ := Ppk.mk.inj h
  have hp5 : p.ppk5 = q.ppk5 := eq_of_add_eq h5 h4
  have hp4 : p.ppk4 = q.ppk4 := eq_of_add_eq h4 h3
  have hp3 : p.ppk3 = q.ppk3 := eq_of_add_eq h3 h2
  have hp2 : p.ppk2 = q.ppk2 := eq_of_add_eq h2 h1
  have hp1 : p.ppk1 = q.ppk1 := eq_of_add_eq h1 (congrArg (· ^^^ tk16 tk 7) h0)
  have hp0 : p.ppk0 = q.ppk0 := eq_of_add_eq h0 (congrArg (· ^^^ tk16 tk 6) hp5)
  rcases p
  rcases q
  simp_all

theorem bytes_injective : Function.Injective Ppk.bytes := by
  intro p q h
  simp only [Ppk.bytes, List.flatMap_cons, List.flatMap_nil, List.cons_append, List.nil_append,
    List.cons.injEq, and_true] at h
  obtain ⟨l0, h0, l1, h1, l2, h2, l3, h3, l4, h4, l5, h5⟩ := h
  have hp0 := eq_of_bytes l0 h0
  have hp1 := eq_of_bytes l1 h1
  have hp2 := eq_of_bytes l2 h2
  have hp3 := eq_of_bytes l3 h3
  have hp4 := eq_of_bytes l4 h4
  have hp5 := eq_of_bytes l5 h5
  rcases p
  rcases q
  simp_all

/-- Phase 2 determines what it starts with. -/
theorem phase2_inj {tk : List Byte} {p q : P1k} {iv16 iv16' : BitVec 16}
    (h : (phase2 tk p iv16).drop 4 = (phase2 tk q iv16').drop 4) : p = q ∧ iv16 = iv16' := by
  rw [drop_phase2, drop_phase2] at h
  have hppk := ppkMix_injective tk (ppkRotate_injective tk (bytes_injective h))
  obtain ⟨h0, h1, h2, h3, h4, h5⟩ := Ppk.mk.inj hppk
  rw [h4] at h5
  refine ⟨?_, (BitVec.add_right_inj _).mp h5⟩
  rcases p
  rcases q
  simp_all

/-! ## Main results -/

/-- What is mixed with the temporal key: the transmitter's address and the packet number. -/
structure PacketInput where
  ta : Vector Byte 6
  iv32 : BitVec 32
  iv16 : BitVec 16
  deriving DecidableEq

/-- The RC4 key of a packet. -/
def PacketInput.rc4key (tk : List Byte) (x : PacketInput) : List Byte :=
  phase2 tk (phase1 tk x.ta.toList x.iv32) x.iv16

/-- Two packets with the same last twelve bytes of the RC4 key are the same; in particular no two
packets share an RC4 key. -/
theorem keyMixing_injective (tk : List Byte) :
    Function.Injective (fun x : PacketInput => (x.rc4key tk).drop 4) ∧
      Function.Injective (fun x : PacketInput => x.rc4key tk) := by
  have hdrop : Function.Injective (fun x : PacketInput => (x.rc4key tk).drop 4) := by
    intro x y h
    obtain ⟨hp1k, hiv16⟩ := phase2_inj h
    have h1 : (x.ta, x.iv32) = (y.ta, y.iv32) := phase1_injective tk hp1k
    rcases x
    rcases y
    simp_all
  exact ⟨hdrop, fun x y h => hdrop (congrArg (List.drop 4) h)⟩

/-- The next packet has another key. -/
theorem keyMixing_injective_next :
    let tk := (List.range 16).map (BitVec.ofNat 8)
    let x : PacketInput := ⟨Vector.replicate 6 0x22, 0, 0xffff⟩
    (x.rc4key tk).drop 4 ≠ (PacketInput.rc4key tk { x with iv32 := 1, iv16 := 0 }).drop 4 := by
  intro tk x h
  have heq := (keyMixing_injective tk).1 h
  exact absurd (congrArg PacketInput.iv16 heq) (by decide)

end Rtl88x2cu.Core.Tkip
