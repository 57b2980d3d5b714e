import Rtl88x2cu.Lib.Bytes

/-!
# Michael

The message integrity code of TKIP. A message is padded with 0x5a and four to seven zeros to words
of 32 bits, and a block function is applied to a state of two words for every word of the message.

The block function can be undone, so that messages that differ in one word never have the same code
(`michael_word_inj`). Nothing of the kind holds for messages that differ in more than one.
-/

namespace Rtl88x2cu.Michael

open Bytes

/-- The two words of the state, which are the key at the beginning and the code at the end. -/
abbrev State := BitVec 32 × BitVec 32

/-- The two bytes of each half are exchanged. -/
def xswap (l : BitVec 32) : BitVec 32 :=
  (l &&& 0xff00ff00) >>> 8 ||| (l &&& 0x00ff00ff) <<< 8

/-- The block function. -/
def block : State → State
  | (l, r) =>
    let r := r ^^^ l.rotateLeft 17
    let l := l + r
    let r := r ^^^ xswap l
    let l := l + r
    let r := r ^^^ l.rotateLeft 3
    let l := l + r
    let r := r ^^^ l.rotateRight 2
    let l := l + r
    (l, r)

/-- A word of the message is mixed in. -/
def step (s : State) (w : BitVec 32) : State := block (s.1 ^^^ w, s.2)

/-- A word from its bytes, the lowest first. -/
def word (a b c d : Byte) : BitVec 32 :=
  a.setWidth 32 ||| b.setWidth 32 <<< 8 ||| c.setWidth 32 <<< 16 ||| d.setWidth 32 <<< 24

/-- The words of a message whose length is a multiple of four. -/
def words : List Byte → List (BitVec 32)
  | a :: b :: c :: d :: bs => word a b c d :: words bs
  | _ => []

/-- The padding. -/
def pad (bs : List Byte) : List Byte := bs ++ 0x5a :: List.replicate (7 - bs.length % 4) 0

/-- The Michael function. -/
def michael (key : State) (bs : List Byte) : State := (words (pad bs)).foldl step key

theorem length_pad (bs : List Byte) : (pad bs).length % 4 = 0 := by
  rw [pad, List.length_append, List.length_cons, List.length_replicate]
  omega

/-- A message of whole words that is shorter than a word. -/
theorem eq_nil_of_short {bs : List Byte} (hshort : ∀ a b c d bs', bs = a :: b :: c :: d :: bs' → False)
    (hlen : bs.length % 4 = 0) : bs = [] := by
  rcases bs with _ | ⟨a, _ | ⟨b, _ | ⟨c, _ | ⟨d, bs⟩⟩⟩⟩
  case nil => rfl
  case cons.cons.cons.cons => exact (hshort a b c d bs rfl).elim
  all_goals contradiction

/-! ## Messages that differ in one word -/

/-- A quarter of the block function. -/
def mix (f : BitVec 32 → BitVec 32) (s : State) : State := (s.1 + (s.2 ^^^ f s.1), s.2 ^^^ f s.1)

theorem mix_injective (f : BitVec 32 → BitVec 32) : Function.Injective (mix f) := by
  rintro ⟨l, r⟩ ⟨l', r'⟩ h
  obtain ⟨hl, hr⟩ := Prod.mk.inj h
  dsimp only at hl hr
  rw [hr] at hl
  obtain rfl := (BitVec.add_left_inj _).mp hl
  rw [(BitVec.xor_left_inj _).mp hr]

theorem block_eq (s : State) :
    block s = mix (·.rotateRight 2) (mix (·.rotateLeft 3) (mix xswap (mix (·.rotateLeft 17) s))) :=
  rfl

theorem block_injective : Function.Injective block := fun s s' h => by
  rw [block_eq, block_eq] at h
  exact mix_injective _ (mix_injective _ (mix_injective _ (mix_injective _ h)))

theorem step_left_injective (w : BitVec 32) : Function.Injective (step · w) := by
  rintro ⟨l, r⟩ ⟨l', r'⟩ h
  obtain ⟨hl, hr⟩ := Prod.mk.inj (block_injective h)
  dsimp only at hl hr
  rw [(BitVec.xor_left_inj w).mp hl, hr]

theorem step_right_injective (s : State) : Function.Injective (step s) := fun w w' h => by
  obtain ⟨hl, -⟩ := Prod.mk.inj (block_injective h)
  exact (BitVec.xor_right_inj s.1).mp hl

theorem foldl_step_injective (ws : List (BitVec 32)) :
    Function.Injective fun s => ws.foldl step s := by
  induction ws with
  | nil => exact fun _ _ h => h
  | cons w ws ih => exact fun _ _ h => step_left_injective w (ih h)

theorem words_append {a : List Byte} (b : List Byte) (h : a.length % 4 = 0) :
    words (a ++ b) = words a ++ words b := by
  induction a using words.induct with
  | case1 x y z t a ih =>
    rw [List.cons_append, List.cons_append, List.cons_append, List.cons_append, words, words,
      ih (by simpa [Nat.add_assoc] using h), List.cons_append]
  | case2 a hshort =>
    rw [eq_nil_of_short hshort h]
    rfl

theorem pad_append {a : List Byte} (b : List Byte) (h : a.length % 4 = 0) :
    pad (a ++ b) = a ++ pad b := by
  rw [pad, pad, List.length_append, List.append_assoc, Nat.add_mod, h, Nat.zero_add, Nat.mod_mod]

theorem getLsbD_word (a b c d : Byte) (i : ℕ) :
    (word a b c d).getLsbD i = if i < 8 then a.getLsbD i else if i < 16 then b.getLsbD (i - 8)
      else if i < 24 then c.getLsbD (i - 16) else d.getLsbD (i - 24) := by
  simp only [word, BitVec.getLsbD_or, BitVec.getLsbD_shiftLeft, BitVec.getLsbD_setWidth]
  grind
theorem word_inj {a b c d a' b' c' d' : Byte} (h : word a b c d = word a' b' c' d') :
    a = a' ∧ b = b' ∧ c = c' ∧ d = d' := by
  have hbit (k i : ℕ) := congrArg (·.getLsbD (k + i)) h
  simp only [getLsbD_word] at hbit
  refine ⟨?_, ?_, ?_, ?_⟩ <;> apply BitVec.eq_of_getLsbD_eq <;> intro i hi
  · grind [hbit 0 i]
  · grind [hbit 8 i]
  · grind [hbit 16 i]
  · grind [hbit 24 i]
/-- Messages with whole words in common before and all in common behind one word have one code only
if they are the same. -/
theorem michael_word_inj (key : State) {a : List Byte} (ha : a.length % 4 = 0)
    {x₀ x₁ x₂ x₃ y₀ y₁ y₂ y₃ : Byte} (b : List Byte)
    (h : michael key (a ++ ([x₀, x₁, x₂, x₃] ++ b)) = michael key (a ++ ([y₀, y₁, y₂, y₃] ++ b))) :
    x₀ = y₀ ∧ x₁ = y₁ ∧ x₂ = y₂ ∧ x₃ = y₃ := by
  have hfour : ∀ z₀ z₁ z₂ z₃ : Byte, michael key (a ++ ([z₀, z₁, z₂, z₃] ++ b)) =
      (words (pad b)).foldl step (step ((words a).foldl step key) (word z₀ z₁ z₂ z₃)) := by
    intro z₀ z₁ z₂ z₃
    have hword : [z₀, z₁, z₂, z₃].length % 4 = 0 := Nat.mod_self 4
    rw [michael, pad_append _ ha, pad_append _ hword, words_append _ ha, List.foldl_append]
    rfl
  rw [hfour, hfour] at h
  exact word_inj (step_right_injective _ (foldl_step_injective _ h))

end Rtl88x2cu.Michael
