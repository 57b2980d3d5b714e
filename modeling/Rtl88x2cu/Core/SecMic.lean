import Mathlib.Algebra.Order.Ring.Nat
import Mathlib.Data.Vector.Basic
import Rtl88x2cu.Lib.Michael
import Rtl88x2cu.Lib.WhileLoop

/-!
# The message integrity code, byte by byte

`rtw_secmicappend` (`core/rtw_security.c`) takes the bytes of a message in as many calls as the
caller likes, and keeps what it has of a word in between. `rtw_secgetmic` pads the message and gives
the code.

* `appended_four` is a whole word; `foldl_appendbyte` is a message of whole words.
* `secmic_chunks` says that the code is that of `Michael.michael`, however the message is cut into
  chunks.
-/

namespace Rtl88x2cu.Core.SecMic

open Bytes Michael

/-! ## Model -/

/-- `struct mic_data`. -/
structure MicData where
  k0 : BitVec 32
  k1 : BitVec 32
  l : BitVec 32
  r : BitVec 32
  m : BitVec 32
  nBytesInM : ℕ
  deriving DecidableEq, Repr

/-- `secmicgetuint32`. -/
def secmicgetuint32 (p : List Byte) : BitVec 32 :=
  word (p.getD 0 0) (p.getD 1 0) (p.getD 2 0) (p.getD 3 0)

/-- `secmicputuint32`. -/
def secmicputuint32 (val : BitVec 32) : List Byte := le 4 val.toNat

/-- `secmicclear`. -/
def secmicclear (micdata : MicData) : MicData :=
  { micdata with l := micdata.k0, r := micdata.k1, nBytesInM := 0, m := 0 }

/-- `rtw_secmicsetkey`. -/
def rtwSecmicsetkey (key : List Byte) : MicData :=
  secmicclear ⟨secmicgetuint32 key, secmicgetuint32 (key.drop 4), 0, 0, 0, 0⟩

/-- `ROL32`. -/
def rol32 (a : BitVec 32) (n : ℕ) : BitVec 32 :=
  a <<< n ||| a >>> (32 - n) &&& BitVec.ofNat 32 (2 ^ n - 1)

/-- `ROR32`. -/
def ror32 (a : BitVec 32) (n : ℕ) : BitVec 32 := rol32 a (32 - n)

/-- `rtw_secmicappendbyte`, once the word is full. -/
def processWord (micdata : MicData) : MicData :=
  let l := micdata.l ^^^ micdata.m
  let r := micdata.r ^^^ rol32 l 17
  let l := l + r
  let r := r ^^^ ((l &&& 0xff00ff00) >>> 8 ||| (l &&& 0x00ff00ff) <<< 8)
  let l := l + r
  let r := r ^^^ rol32 l 3
  let l := l + r
  let r := r ^^^ ror32 l 2
  let l := l + r
  { micdata with l, r, m := 0, nBytesInM := 0 }

/-- `rtw_secmicappendbyte`. -/
def rtwSecmicappendbyte (micdata : MicData) (b : Byte) : MicData :=
  let micdata := { micdata with
    m := micdata.m ||| b.setWidth 32 <<< (8 * micdata.nBytesInM)
    nBytesInM := micdata.nBytesInM + 1 }
  if micdata.nBytesInM ≥ 4 then processWord micdata else micdata

/-- `rtw_secmicappend`. -/
def rtwSecmicappend (micdata : MicData) (src : List Byte) : MicData :=
  src.foldl rtwSecmicappendbyte micdata

/-- `rtw_secgetmic`: the code, and the state it is reset to. The loop runs three times at most. -/
def rtwSecgetmic (micdata : MicData) : Option (List Byte × MicData) := do
  let micdata := rtwSecmicappendbyte micdata 0x5a
  let micdata := rtwSecmicappendbyte micdata 0
  let micdata := rtwSecmicappendbyte micdata 0
  let micdata := rtwSecmicappendbyte micdata 0
  let micdata := rtwSecmicappendbyte micdata 0
  let micdata ← whileLoop (fun micdata => micdata.nBytesInM != 0)
    (fun micdata => some (rtwSecmicappendbyte micdata 0)) 3 micdata
  some (secmicputuint32 micdata.l ++ secmicputuint32 micdata.r, secmicclear micdata)

/-! ## Whole words -/

/-- The mask takes nothing away. -/
theorem ushiftRight_and_mask {n : ℕ} (h : n ≤ 32) (a : BitVec 32) :
    a >>> (32 - n) &&& BitVec.ofNat 32 (2 ^ n - 1) = a >>> (32 - n) := by
  apply BitVec.eq_of_getLsbD_eq
  intro i hi
  rw [BitVec.getLsbD_and, BitVec.getLsbD_ushiftRight, BitVec.getLsbD_ofNat,
    Nat.testBit_two_pow_sub_one]
  by_cases hin : i < n
  · simp [hi, hin]
  · rw [BitVec.getLsbD_of_ge a _ (by omega), Bool.false_and]

theorem rol32_eq_rotateLeft {n : ℕ} (h : n < 32) (a : BitVec 32) : rol32 a n = a.rotateLeft n := by
  rw [rol32, ushiftRight_and_mask h.le, BitVec.rotateLeft_def, Nat.mod_eq_of_lt h]

theorem ror32_eq_rotateRight {n : ℕ} (h : n < 32) (a : BitVec 32) :
    ror32 a n = a.rotateRight n := by
  rw [ror32, rol32, ushiftRight_and_mask (Nat.sub_le 32 n), BitVec.rotateRight_def,
    Nat.mod_eq_of_lt h, BitVec.or_comm]
  congr 2
  omega

/-- A state with a whole number of words behind it. -/
def MicData.Whole (micdata : MicData) : Prop := micdata.m = 0 ∧ micdata.nBytesInM = 0

/-- The state of Michael. -/
def MicData.state (micdata : MicData) : State := (micdata.l, micdata.r)

/-- The state of Michael is another one. -/
def MicData.setState (micdata : MicData) (s : State) : MicData :=
  { micdata with l := s.1, r := s.2 }

theorem processWord_eq (micdata : MicData) :
    processWord micdata =
      { micdata.setState (Michael.step micdata.state micdata.m) with m := 0, nBytesInM := 0 } := by
  simp only [processWord, rol32_eq_rotateLeft (show 17 < 32 by decide),
    rol32_eq_rotateLeft (show 3 < 32 by decide), ror32_eq_rotateRight (show 2 < 32 by decide)]
  rfl

variable {micdata : MicData}

/-- Four bytes are a word. -/
theorem appended_four (h : micdata.Whole) (a b c d : Byte) (bs : List Byte) :
    rtwSecmicappend micdata (a :: b :: c :: d :: bs) =
      rtwSecmicappend (micdata.setState (Michael.step micdata.state (word a b c d))) bs := by
  obtain ⟨k0, k1, l, r, m, n⟩ := micdata
  obtain ⟨rfl, rfl⟩ : m = 0 ∧ n = 0 := h
  have hword : rtwSecmicappendbyte (rtwSecmicappendbyte (rtwSecmicappendbyte
      (rtwSecmicappendbyte ⟨k0, k1, l, r, 0, 0⟩ a) b) c) d =
      processWord ⟨k0, k1, l, r, word a b c d, 4⟩ := by
    simp [rtwSecmicappendbyte, word]
  rw [rtwSecmicappend, List.foldl_cons, List.foldl_cons, List.foldl_cons, List.foldl_cons, hword,
    processWord_eq]
  rfl

/-- A message of whole words. -/
theorem foldl_appendbyte (h : micdata.Whole) {bs : List Byte} (hbs : bs.length % 4 = 0) :
    rtwSecmicappend micdata bs = micdata.setState ((words bs).foldl Michael.step micdata.state) := by
  induction bs using words.induct generalizing micdata with
  | case1 a b c d bs ih =>
    have hset : (micdata.setState (Michael.step micdata.state (word a b c d))).Whole := h
    rw [appended_four h, ih hset (by simpa [Nat.add_assoc] using hbs), words, List.foldl_cons]
    rfl
  | case2 bs hshort =>
    rw [eq_nil_of_short hshort hbs]
    rfl

/-! ## The padding -/

theorem nBytesInM_appendbyte (h : micdata.nBytesInM < 4) (b : Byte) :
    (rtwSecmicappendbyte micdata b).nBytesInM = (micdata.nBytesInM + 1) % 4 := by
  rw [rtwSecmicappendbyte]
  dsimp only
  split
  · rw [processWord]
    dsimp only
    omega
  · dsimp only
    omega

/-- How many bytes are kept. -/
theorem nBytesInM_append (micdata : MicData) (h : micdata.nBytesInM < 4) (bs : List Byte) :
    (rtwSecmicappend micdata bs).nBytesInM = (micdata.nBytesInM + bs.length) % 4 := by
  induction bs generalizing micdata with
  | nil => exact (Nat.mod_eq_of_lt h).symm
  | cons b bs ih =>
    have hb := nBytesInM_appendbyte h b
    rw [rtwSecmicappend, List.foldl_cons, ← rtwSecmicappend, ih _ (by omega), hb, List.length_cons]
    omega

/-- The loop appends zeros up to the end of the word. -/
theorem whileLoop_zeros (micdata : MicData) (n fuel : ℕ) (h : micdata.nBytesInM < 4)
    (hn : n = (4 - micdata.nBytesInM) % 4) (hfuel : n ≤ fuel) :
    whileLoop (fun micdata => micdata.nBytesInM != 0)
      (fun micdata => some (rtwSecmicappendbyte micdata 0)) fuel micdata =
      some (rtwSecmicappend micdata (List.replicate n 0)) := by
  induction n generalizing micdata fuel with
  | zero =>
    apply whileLoop_of_not
    rw [bne_eq_false_iff_eq]
    omega
  | succ n ih =>
    obtain ⟨fuel, rfl⟩ : ∃ fuel', fuel = fuel' + 1 := ⟨fuel - 1, by omega⟩
    have hb := nBytesInM_appendbyte h 0
    rw [whileLoop_succ _ (by rw [bne_iff_ne]; omega), Option.bind_some,
      ih _ _ (by omega) (by omega) (by omega)]
    rfl

/-! ## The code -/

/-- The key as it is set, `K0` and `K1`. -/
def keyState (key : List Byte) : State := (secmicgetuint32 key, secmicgetuint32 (key.drop 4))

/-- The bytes of a code. -/
def micBytes (s : State) : List Byte := le 4 s.1.toNat ++ le 4 s.2.toNat

theorem length_micBytes (s : State) : (micBytes s).length = 8 := by
  rw [micBytes, List.length_append, length_le, length_le]

theorem micBytes_injective : Function.Injective micBytes := fun s s' h => by
  obtain ⟨h1, h2⟩ := List.append_inj h (by rw [length_le, length_le])
  have hle : ∀ {v v' : BitVec 32}, le 4 v.toNat = le 4 v'.toNat → v = v' := fun {v v'} hv => by
    apply BitVec.eq_of_toNat_eq
    rw [← ofLe_le (n := 4) v.isLt, ← ofLe_le (n := 4) v'.isLt, hv]
  exact Prod.ext (hle h1) (hle h2)

theorem rtwSecmicappend_append (micdata : MicData) (a b : List Byte) :
    rtwSecmicappend micdata (a ++ b) = rtwSecmicappend (rtwSecmicappend micdata a) b :=
  List.foldl_append

/-- The code of all that has been appended. -/
theorem rtwSecgetmic_append (key bs : List Byte) :
    rtwSecgetmic (rtwSecmicappend (rtwSecmicsetkey key) bs) =
      some (micBytes (michael (keyState key) bs), rtwSecmicsetkey key) := by
  have hkey : (rtwSecmicsetkey key).Whole := ⟨rfl, rfl⟩
  generalize hn : 3 - bs.length % 4 = n
  have hpad : bs ++ [0x5a, 0, 0, 0, 0] ++ List.replicate n 0 = pad bs := by
    have hsucc : 7 - bs.length % 4 = n + 1 + 1 + 1 + 1 := by omega
    rw [pad, hsucc, List.append_assoc]
    rfl
  have hzero : (rtwSecmicsetkey key).nBytesInM = 0 := rfl
  have hmid := nBytesInM_append (rtwSecmicsetkey key) (by omega)
    (bs ++ [0x5a, 0, 0, 0, 0])
  rw [hzero, List.length_append, List.length_cons, List.length_cons, List.length_cons,
    List.length_cons, List.length_singleton] at hmid
  have hloop := whileLoop_zeros (rtwSecmicappend (rtwSecmicsetkey key) (bs ++ [0x5a, 0, 0, 0, 0])) n 3
    (by omega) (by omega) (by omega)
  rw [← rtwSecmicappend_append, hpad, foldl_appendbyte hkey (length_pad bs),
    rtwSecmicappend_append] at hloop
  rw [rtwSecgetmic]
  exact congrArg (Option.bind · _) hloop

/-- However a message is cut into chunks, its code is that of Michael, and what is kept of it is
forgotten behind it. -/
theorem secmic_chunks (key : List Byte) (chunks : List (List Byte)) :
    rtwSecgetmic (chunks.foldl rtwSecmicappend (rtwSecmicsetkey key)) =
      some (micBytes (michael (keyState key) chunks.flatten), rtwSecmicsetkey key) := by
  have hflat : chunks.foldl rtwSecmicappend (rtwSecmicsetkey key) =
      rtwSecmicappend (rtwSecmicsetkey key) chunks.flatten := List.foldl_flatten.symm
  rw [hflat, rtwSecgetmic_append]

end Rtl88x2cu.Core.SecMic
