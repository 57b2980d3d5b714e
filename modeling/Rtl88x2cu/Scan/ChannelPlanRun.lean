import Mathlib.Algebra.Order.Ring.Nat
import Rtl88x2cu.Lib.ListMerge
import Rtl88x2cu.Scan.ChannelPlan

/-!
# The loops of the channel plan

The three loops over a band write the merge of the band's channels of the station and of the access
point behind what has been written (`mergeBand_eq`), as long as it fits into the channel set.
`newPlan_eq` and `process80211d_eq` follow for the whole function.
-/

namespace Rtl88x2cu.Scan.ChannelPlan

open Bytes (Byte)
open ListMerge ListMerge.Merged

/-! ## What has been written -/

/-- The channel set whose first entries are `out`. -/
def setOf (out : List RtChannelInfo) : ChannelSet where
  infos := out.take maxChannelNum ++ List.replicate (maxChannelNum - out.length) zeroInfo
  size := by
    rw [List.length_append, List.length_take, List.length_replicate]
    omega

/-- The state after `out` has been written. -/
def stateAt (i j : ℕ) (out : List RtChannelInfo) : Merging where
  i := i
  j := j
  k := out.length
  chplanNew := setOf out

/-- The state after `out` has been written, if there is room for it. -/
def reached (i j : ℕ) (out : List RtChannelInfo) : Option Merging :=
  if out.length ≤ maxChannelNum then some (stateAt i j out) else none

section Reached

variable {i j i' j' : ℕ} {out x : List RtChannelInfo} {F : Merging → Option Merging}

theorem reached_of_le (h : out.length ≤ maxChannelNum) : reached i j out = some (stateAt i j out) :=
  if_pos h

/-- What is behind a step that writes may assume that there was room. -/
theorem reached_bind (h : out.length ≤ maxChannelNum →
    F (stateAt i j out) = reached i' j' (out ++ x)) :
    (reached i j out).bind F = reached i' j' (out ++ x) := by
  by_cases hle : out.length ≤ maxChannelNum
  · rw [reached_of_le hle, Option.bind_some, h hle]
  · rw [reached, reached, if_neg hle, if_neg, Option.bind_none]
    rw [List.length_append]
    omega

/-- A step that moves the indices only. -/
theorem reached_move (h : F (stateAt i j out) = some (stateAt i' j' out)) :
    (reached i j out).bind F = reached i' j' out := by
  unfold reached
  split_ifs
  · exact h
  · rfl

theorem modify_setOf (h : out.length < maxChannelNum) (f : RtChannelInfo → RtChannelInfo) :
    (setOf out).modify out.length f = some (setOf (out ++ [f zeroInfo])) := by
  rw [ChannelSet.modify, if_pos h, Option.some_inj]
  simp only [setOf, ChannelSet.mk.injEq]
  obtain ⟨r, hr⟩ : ∃ r, maxChannelNum - out.length = r + 1 :=
    ⟨maxChannelNum - out.length - 1, by omega⟩
  have hr' : maxChannelNum - (out ++ [f zeroInfo]).length = r := by
    rw [List.length_append, List.length_singleton]
    omega
  have hfits : (out ++ [f zeroInfo]).length ≤ maxChannelNum := by
    rw [List.length_append, List.length_singleton]
    omega
  rw [List.take_of_length_le (Nat.le_of_lt h), List.take_of_length_le hfits, hr', hr,
    List.replicate_succ, List.modify_eq_take_drop, List.take_left, List.drop_left,
      List.append_assoc]
  rfl

/-- An assignment that fits writes the cleared entry behind what has been written. -/
theorem put_stateAt (h : out.length ≤ maxChannelNum) (f : RtChannelInfo → RtChannelInfo) :
    (stateAt i j out).put f = reached i j (out ++ [f zeroInfo]) := by
  have hk : (stateAt i j out).k = out.length := rfl
  have hset : (stateAt i j out).chplanNew = setOf out := rfl
  have hlen : (out ++ [f zeroInfo]).length = out.length + 1 := by
    rw [List.length_append, List.length_singleton]
  unfold Merging.put
  rw [hk, hset]
  by_cases hlt : out.length < maxChannelNum
  · rw [modify_setOf hlt, reached_of_le (by omega)]
    simp only [Option.bind_eq_bind, Option.bind_some, stateAt, hlen]
  · rw [ChannelSet.modify, if_neg hlt, reached, if_neg (by omega)]
    rfl

end Reached

/-! ## Where a loop is in an array -/

section Segment

variable {α : Type*} {stop : α → Bool} {xs : List α} {i : ℕ} {x : α} {l : List α}

/-- From the index `i` on, `l` is in front of the next entry that stops the loop. -/
def Segment (stop : α → Bool) (xs : List α) (i : ℕ) (l : List α) : Prop :=
  (xs.drop i).takeWhile (fun x => !stop x) = l

theorem Segment.more_nil (h : Segment stop xs i []) : more stop xs i = false := by
  unfold Segment at h
  unfold more
  cases hx : xs[i]? with
  | none => rfl
  | some x =>
    obtain ⟨hi, hget⟩ := List.getElem?_eq_some_iff.mp hx
    rw [List.drop_eq_getElem_cons hi, hget, List.takeWhile_cons] at h
    dsimp only
    split_ifs at h with hstop
    exact eq_false_of_ne_true hstop

theorem Segment.cons (h : Segment stop xs i (x :: l)) :
    xs[i]? = some x ∧ more stop xs i = true ∧ Segment stop xs (i + 1) l := by
  unfold Segment at h
  have hi : i < xs.length := by
    by_contra hge
    rw [List.drop_eq_nil_of_le (Nat.not_lt.mp hge)] at h
    cases h
  rw [List.drop_eq_getElem_cons hi, List.takeWhile_cons] at h
  split_ifs at h with hstop
  obtain ⟨hx, hl⟩ := List.cons.inj h
  have hget : xs[i]? = some x := List.getElem?_eq_some_iff.mpr ⟨hi, hx⟩
  refine ⟨hget, ?_, hl⟩
  rw [more, hget, ← hx]
  exact hstop

/-- A loop over the segment that ends at the first entry in front of which it stops. -/
theorem Segment.next (stop' : α → Bool) (h : Segment stop xs i l) :
    Segment stop' xs (i + l.length) ((xs.drop i).dropWhile (fun x => !stop x) |>.takeWhile
      (fun x => !stop' x)) := by
  have hdrop : (xs.drop i).drop l.length = (xs.drop i).dropWhile (fun x => !stop x) := by
    unfold Segment at h
    conv_lhs => rw [← List.takeWhile_append_dropWhile (p := fun x => !stop x) (l := xs.drop i), h]
    exact List.drop_left
  unfold Segment
  rw [← hdrop, List.drop_drop]

end Segment

/-! ## Loops over one array -/

/-- The new entry for a channel of the station. -/
def staInfo (passive : Bool) (a : RtChannelInfo) : RtChannelInfo where
  channelNum := a.channelNum
  flags := if passive || a.flags &&& chfNoIr ≠ 0 then chfNoIr else 0

/-- The new entry for a channel of the access point. -/
def apInfo (b : Byte) : RtChannelInfo := ⟨b, 0⟩

/-- The new entry for what the merge takes. -/
def infoOf : Merged RtChannelInfo Byte → RtChannelInfo
  | .both _ b => apInfo b
  | .left a => staInfo true a
  | .right b => apInfo b

section Loops

variable {sta : List RtChannelInfo} {ap : List Byte} {staEnd : RtChannelInfo → Bool}
  {apEnd : Byte → Bool} {i j n : ℕ} {out : List RtChannelInfo}

theorem staBody_eq {a : RtChannelInfo} (passive : Bool) (hout : out.length ≤ maxChannelNum)
    (h : sta[i]? = some a) :
    staBody sta passive (stateAt i j out) = reached (i + 1) j (out ++ [staInfo passive a]) := by
  have hi : (stateAt i j out).i = i := rfl
  unfold staBody
  rw [hi, h, Option.bind_eq_bind, Option.bind_some, put_stateAt hout]
  exact reached_move rfl

theorem apBody_eq {b : Byte} (hout : out.length ≤ maxChannelNum) (h : ap[j]? = some b) :
    apBody ap (stateAt i j out) = reached i (j + 1) (out ++ [apInfo b]) := by
  have hj : (stateAt i j out).j = j := rfl
  unfold apBody
  rw [hj, h, Option.bind_eq_bind, Option.bind_some, put_stateAt hout]
  exact reached_move rfl

theorem moreSta_nil (h : Segment staEnd sta i []) : moreSta sta staEnd (stateAt i j out) = false :=
  h.more_nil

theorem moreAp_nil (h : Segment apEnd ap j []) : moreAp ap apEnd (stateAt i j out) = false :=
  h.more_nil

/-- The rest of the station's channels of a band. -/
theorem staLoop_eq {S : List RtChannelInfo} (passive : Bool) (hout : out.length ≤ maxChannelNum)
    (h : Segment staEnd sta i S) (hn : S.length ≤ n) :
    whileLoop (moreSta sta staEnd) (staBody sta passive) n (stateAt i j out) =
      reached (i + S.length) j (out ++ S.map (staInfo passive)) := by
  induction S generalizing i n out with
  | nil =>
    rw [whileLoop_of_not n (moreSta_nil h), List.map_nil, List.append_nil, reached_of_le hout]
    rfl
  | cons a S ih =>
    obtain ⟨hget, hmore, hnext⟩ := h.cons
    obtain ⟨n, rfl⟩ := Nat.exists_eq_succ_of_ne_zero (Nat.ne_zero_of_lt hn)
    replace hmore : moreSta sta staEnd (stateAt i j out) = true := hmore
    rw [whileLoop_succ n hmore, staBody_eq passive hout hget, List.map_cons,
      List.append_cons out (staInfo passive a) (S.map _),
      List.length_cons, ← Nat.add_assoc, Nat.add_right_comm]
    exact reached_bind fun hle => ih hle hnext (Nat.le_of_succ_le_succ hn)

/-- The rest of the channels of the access point in a band. -/
theorem apLoop_eq {A : List Byte} (hout : out.length ≤ maxChannelNum) (h : Segment apEnd ap j A)
    (hn : A.length ≤ n) :
    whileLoop (moreAp ap apEnd) (apBody ap) n (stateAt i j out) =
      reached i (j + A.length) (out ++ A.map apInfo) := by
  induction A generalizing j n out with
  | nil =>
    rw [whileLoop_of_not n (moreAp_nil h), List.map_nil, List.append_nil, reached_of_le hout]
    rfl
  | cons b A ih =>
    obtain ⟨hget, hmore, hnext⟩ := h.cons
    obtain ⟨n, rfl⟩ := Nat.exists_eq_succ_of_ne_zero (Nat.ne_zero_of_lt hn)
    replace hmore : moreAp ap apEnd (stateAt i j out) = true := hmore
    rw [whileLoop_succ n hmore, apBody_eq hout hget, List.map_cons,
      List.append_cons out (apInfo b) (A.map _),
      List.length_cons, ← Nat.add_assoc, Nat.add_right_comm]
    exact reached_bind fun hle => ih hle hnext (Nat.le_of_succ_le_succ hn)

/-- The channels of the access point in a band that is not enabled. -/
theorem skipBand_eq {A : List Byte} (h : Segment apEnd ap j A) (hn : A.length ≤ n) :
    skipBand ap apEnd n (stateAt i j out) = some (stateAt i (j + A.length) out) := by
  unfold skipBand
  induction A generalizing j n with
  | nil =>
    rw [whileLoop_of_not n (moreAp_nil h)]
    rfl
  | cons b A ih =>
    obtain ⟨-, hmore, hnext⟩ := h.cons
    obtain ⟨n, rfl⟩ := Nat.exists_eq_succ_of_ne_zero (Nat.ne_zero_of_lt hn)
    replace hmore : moreAp ap apEnd (stateAt i j out) = true := hmore
    rw [whileLoop_succ n hmore, Option.bind_some, List.length_cons, ← Nat.add_assoc,
      Nat.add_right_comm]
    exact ih hnext (Nat.le_of_succ_le_succ hn)

/-! ## A band -/

/-- The keys of the merge. -/
abbrev staKey (a : RtChannelInfo) : ℕ := a.channelNum.toNat

theorem mergeBody_eq_of_eq {a : RtChannelInfo} {b : Byte} (hout : out.length ≤ maxChannelNum)
    (ha : sta[i]? = some a) (hb : ap[j]? = some b) (h : staKey a = b.toNat) :
    mergeBody sta ap (stateAt i j out) = reached (i + 1) (j + 1) (out ++ [apInfo b]) := by
  have hi : (stateAt i j out).i = i := rfl
  have hj : (stateAt i j out).j = j := rfl
  unfold mergeBody
  simp only [hi, hj, ha, hb, Option.bind_eq_bind, Option.bind_some,
    if_pos (BitVec.eq_of_toNat_eq h),
    put_stateAt hout]
  exact reached_move rfl

theorem mergeBody_eq_of_lt {a : RtChannelInfo} {b : Byte} (hout : out.length ≤ maxChannelNum)
    (ha : sta[i]? = some a) (hb : ap[j]? = some b) (h : staKey a < b.toNat) :
    mergeBody sta ap (stateAt i j out) = reached (i + 1) j (out ++ [staInfo true a]) := by
  have hi : (stateAt i j out).i = i := rfl
  have hj : (stateAt i j out).j = j := rfl
  have hne : a.channelNum ≠ b := fun heq => h.ne (congrArg BitVec.toNat heq)
  unfold mergeBody
  simp only [hi, hj, ha, hb, Option.bind_eq_bind, Option.bind_some, if_neg hne, if_pos h,
    put_stateAt hout]
  exact reached_move rfl

theorem mergeBody_eq_of_gt {a : RtChannelInfo} {b : Byte} (hout : out.length ≤ maxChannelNum)
    (ha : sta[i]? = some a) (hb : ap[j]? = some b) (h : b.toNat < staKey a) :
    mergeBody sta ap (stateAt i j out) = reached i (j + 1) (out ++ [apInfo b]) := by
  have hi : (stateAt i j out).i = i := rfl
  have hj : (stateAt i j out).j = j := rfl
  have hne : a.channelNum ≠ b := fun heq => h.ne' (congrArg BitVec.toNat heq)
  unfold mergeBody
  simp only [hi, hj, ha, hb, Option.bind_eq_bind, Option.bind_some, if_neg hne, if_neg h.not_gt,
    put_stateAt hout]
  exact reached_move rfl

/-- The channels of a band that is enabled are merged. The induction is along the merge: while both
lists have channels it is the first loop that goes on. -/
theorem mergeLoops_eq {S : List RtChannelInfo} {A : List Byte} (hout : out.length ≤ maxChannelNum)
    (hS : Segment staEnd sta i S) (hA : Segment apEnd ap j A) (hn : S.length + A.length ≤ n) {m : ℕ}
    (hm : S.length + A.length ≤ m) :
    (whileLoop (moreOfBoth sta ap staEnd apEnd) (mergeBody sta ap) m (stateAt i j out)).bind
        (restBand sta ap staEnd apEnd n) =
      reached (i + S.length) (j + A.length)
        (out ++ (merge staKey BitVec.toNat S A).map infoOf) := by
  induction S, A using merge_induction staKey BitVec.toNat generalizing i j out m with
  | hnil A =>
    have hstop : moreOfBoth sta ap staEnd apEnd (stateAt i j out) = false := by
      rw [moreOfBoth, moreSta_nil hS, Bool.false_and]
    rw [whileLoop_of_not m hstop, Option.bind_some, restBand, whileLoop_of_not n (moreSta_nil hS),
      Option.bind_eq_bind, Option.bind_some, apLoop_eq hout hA (by omega), merge_nil_left,
      List.map_map]
    rfl
  | hnil' S =>
    have hstop : moreOfBoth sta ap staEnd apEnd (stateAt i j out) = false := by
      rw [moreOfBoth, moreAp_nil hA, Bool.and_false]
    have hloop := staLoop_eq (j := j) true hout hS (by simpa using hn)
    rw [whileLoop_of_not m hstop, Option.bind_some, restBand, Option.bind_eq_bind, hloop,
      merge_nil_right, List.map_map]
    exact reached_move (whileLoop_of_not n (moreAp_nil hA))
  | heq a S b A h ih =>
    obtain ⟨ha, hmoreS, hS⟩ := hS.cons
    obtain ⟨hb, hmoreA, hA⟩ := hA.cons
    have hmore : moreOfBoth sta ap staEnd apEnd (stateAt i j out) = true := by
      rw [moreOfBoth, Bool.and_eq_true]
      exact ⟨hmoreS, hmoreA⟩
    obtain ⟨m, rfl⟩ := Nat.exists_eq_succ_of_ne_zero (Nat.ne_zero_of_lt hm)
    simp only [List.length_cons] at hn hm
    rw [whileLoop_succ m hmore, mergeBody_eq_of_eq hout ha hb h, Option.bind_assoc,
      merge_cons_of_eq h, List.map_cons, List.append_cons out (infoOf _), List.length_cons,
        List.length_cons,
      ← Nat.add_assoc, ← Nat.add_assoc, Nat.add_right_comm i, Nat.add_right_comm j]
    exact reached_bind fun hle => ih hle hS hA (by omega) (by omega)
  | hlt a S b A h ih =>
    obtain ⟨ha, hmoreS, hS⟩ := hS.cons
    obtain ⟨hb, hmoreA, -⟩ := hA.cons
    have hmore : moreOfBoth sta ap staEnd apEnd (stateAt i j out) = true := by
      rw [moreOfBoth, Bool.and_eq_true]
      exact ⟨hmoreS, hmoreA⟩
    obtain ⟨m, rfl⟩ := Nat.exists_eq_succ_of_ne_zero (Nat.ne_zero_of_lt hm)
    simp only [List.length_cons] at hn hm
    rw [whileLoop_succ m hmore, mergeBody_eq_of_lt hout ha hb h, Option.bind_assoc,
      merge_cons_of_lt h, List.map_cons, List.append_cons out (infoOf _), List.length_cons,
        ← Nat.add_assoc,
      Nat.add_right_comm i]
    exact reached_bind fun hle => ih hle hS hA (by simp only [List.length_cons]; omega)
      (by simp only [List.length_cons]; omega)
  | hgt a S b A h ih =>
    obtain ⟨ha, hmoreS, -⟩ := hS.cons
    obtain ⟨hb, hmoreA, hA⟩ := hA.cons
    have hmore : moreOfBoth sta ap staEnd apEnd (stateAt i j out) = true := by
      rw [moreOfBoth, Bool.and_eq_true]
      exact ⟨hmoreS, hmoreA⟩
    obtain ⟨m, rfl⟩ := Nat.exists_eq_succ_of_ne_zero (Nat.ne_zero_of_lt hm)
    simp only [List.length_cons] at hn hm
    rw [whileLoop_succ m hmore, mergeBody_eq_of_gt hout ha hb h, Option.bind_assoc,
      merge_cons_of_gt h, List.map_cons, List.append_cons out (infoOf _), List.length_cons (a := b),
      ← Nat.add_assoc, Nat.add_right_comm j]
    exact reached_bind fun hle => ih hle hS hA (by simp only [List.length_cons]; omega)
      (by simp only [List.length_cons]; omega)

/-- A band that is enabled. -/
theorem mergeBand_eq {S : List RtChannelInfo} {A : List Byte} (hout : out.length ≤ maxChannelNum)
    (hS : Segment staEnd sta i S) (hA : Segment apEnd ap j A) (hn : S.length + A.length ≤ n) :
    mergeBand sta ap staEnd apEnd n (stateAt i j out) =
      reached (i + S.length) (j + A.length) (out ++ (merge staKey BitVec.toNat S A).map infoOf) :=
  mergeLoops_eq hout hS hA hn hn

end Loops

/-! ## The whole function -/

/-- The channels of the 2.4 GHz band. -/
def is24 (c : ℕ) : Bool := c ≤ 14

/-- The channels of the station: they end at the first entry that is cleared. -/
def stationOf (set : ChannelSet) : List RtChannelInfo := set.infos.takeWhile fun a => !staEnd a

section Plan

variable (wirelessMode : Byte) (S : List RtChannelInfo) (A : List Byte)

/-- The entries that are written for 2.4 GHz. -/
def plan24 : List RtChannelInfo :=
  let S24 := S.takeWhile fun a => is24 (staKey a)
  if wirelessMode &&& wireless11g ≠ 0 then
    (merge staKey BitVec.toNat S24 (A.takeWhile fun b => is24 b.toNat)).map infoOf
  else S24.map (staInfo false)

/-- The entries that are written for 5 GHz. -/
def plan5 : List RtChannelInfo :=
  let S5 := S.dropWhile fun a => is24 (staKey a)
  if wirelessMode &&& wireless11a ≠ 0 then
    (merge staKey BitVec.toNat S5
      ((A.dropWhile fun b => is24 b.toNat).takeWhile fun b => !apEnd b)).map infoOf
  else S5.map (staInfo false)

def planOf : List RtChannelInfo := plan24 wirelessMode S A ++ plan5 wirelessMode S A

end Plan

theorem not_staEnd24 (a : RtChannelInfo) : (!staEnd24 a) = (!staEnd a && is24 (staKey a)) := by
  unfold staEnd24 staEnd is24
  rw [Bool.not_or]
  congr 1
  simp only [← Nat.not_lt, decide_not]

theorem not_apEnd24 (b : Byte) : (!apEnd24 b) = is24 b.toNat := by
  unfold apEnd24 is24
  simp only [← Nat.not_lt, decide_not]

section Cut

variable {α : Type*} (p q : α → Bool) (l : List α)

/-- A list that is cut twice. -/
theorem takeWhile_and : (l.takeWhile fun x => p x && q x) = (l.takeWhile p).takeWhile q := by
  induction l with
  | nil => rfl
  | cons x l ih =>
    cases hp : p x with
    | false => simp [hp]
    | true => cases hq : q x <;> simp [hp, hq, ih]

theorem takeWhile_dropWhile_and :
    (l.dropWhile fun x => p x && q x).takeWhile p = (l.takeWhile p).dropWhile q := by
  induction l with
  | nil => rfl
  | cons x l ih =>
    cases hp : p x with
    | false => simp [hp]
    | true => cases hq : q x <;> simp [hp, hq, ih]

theorem length_takeWhile_le : (l.takeWhile p).length ≤ l.length :=
  (List.takeWhile_sublist p).length_le

theorem length_dropWhile_le : (l.dropWhile p).length ≤ l.length :=
  (List.dropWhile_sublist p).length_le

end Cut

/-- The new channel set holds the plan, if it fits. -/
theorem newPlan_eq (wirelessMode : Byte) (set : ChannelSet) {A : List Byte}
    (hA : A.length ≤ maxChannelNum) :
    newPlan wirelessMode set.infos A =
      if (planOf wirelessMode (stationOf set) A).length ≤ maxChannelNum then
        some (setOf (planOf wirelessMode (stationOf set) A))
      else none := by
  obtain ⟨S24, hS24⟩ : ∃ S24, S24 = (stationOf set).takeWhile fun a => is24 (staKey a) := ⟨_, rfl⟩
  obtain ⟨S5, hS5⟩ : ∃ S5, S5 = (stationOf set).dropWhile fun a => is24 (staKey a) := ⟨_, rfl⟩
  obtain ⟨A24, hA24⟩ : ∃ A24, A24 = A.takeWhile fun b => is24 b.toNat := ⟨_, rfl⟩
  obtain ⟨A5, hA5⟩ : ∃ A5, A5 = (A.dropWhile fun b => is24 b.toNat).takeWhile fun b => !apEnd b :=
    ⟨_, rfl⟩
  have hsta : (stationOf set).length ≤ maxChannelNum :=
    set.size ▸ length_takeWhile_le _ _
  have hlenS24 : S24.length ≤ maxChannelNum := hS24 ▸ (length_takeWhile_le _ _).trans hsta
  have hlenS5 : S5.length ≤ maxChannelNum := hS5 ▸ (length_dropWhile_le _ _).trans hsta
  have hlenA24 : A24.length ≤ maxChannelNum := hA24 ▸ (length_takeWhile_le _ _).trans hA
  have hlenA5 : A5.length ≤ maxChannelNum :=
    hA5 ▸ (length_takeWhile_le _ _).trans ((length_dropWhile_le _ _).trans hA)
  have hsegS24 : Segment staEnd24 set.infos 0 S24 := by
    rw [Segment, List.drop_zero, hS24, stationOf, ← takeWhile_and]
    simp only [not_staEnd24]
  have hsegS5 : Segment staEnd set.infos (0 + S24.length) S5 := by
    have hnext := hsegS24.next staEnd
    simp only [List.drop_zero, not_staEnd24, takeWhile_dropWhile_and] at hnext
    rwa [hS5]
  have hsegA24 : Segment apEnd24 A 0 A24 := by
    rw [Segment, List.drop_zero, hA24]
    simp only [not_apEnd24]
  have hsegA5 : Segment apEnd A (0 + A24.length) A5 := by
    have hnext := hsegA24.next apEnd
    simp only [List.drop_zero, not_apEnd24] at hnext
    rwa [hA5]
  obtain ⟨n, hn⟩ : ∃ n, n = maxChannelNum + maxChannelNum := ⟨_, rfl⟩
  have h24 : band24 wirelessMode set.infos A n (stateAt 0 0 []) =
      reached (0 + S24.length) (0 + A24.length) (plan24 wirelessMode (stationOf set) A) := by
    unfold band24 plan24
    rw [← hS24, ← hA24]
    split_ifs
    · exact mergeBand_eq (Nat.zero_le _) hsegS24 hsegA24 (by omega)
    · rw [keepBand, staLoop_eq false (Nat.zero_le _) hsegS24 (by omega)]
      exact reached_move (skipBand_eq hsegA24 (by omega))
  have h5 (h : (plan24 wirelessMode (stationOf set) A).length ≤ maxChannelNum) :
      ∃ i j, band5 wirelessMode set.infos A n
          (stateAt (0 + S24.length) (0 + A24.length) (plan24 wirelessMode (stationOf set) A)) =
        reached i j (planOf wirelessMode (stationOf set) A) := by
    unfold band5 planOf plan5
    rw [← hS5, ← hA5]
    split_ifs
    · exact ⟨_, _, mergeBand_eq h hsegS5 hsegA5 (by omega)⟩
    · exact ⟨_, _, staLoop_eq false h hsegS5 (by omega)⟩
  unfold newPlan
  simp only [Option.bind_eq_bind, ← hn]
  rw [show Merging.mk 0 0 0 ChannelSet.zero = stateAt 0 0 [] from rfl, h24]
  by_cases h : (plan24 wirelessMode (stationOf set) A).length ≤ maxChannelNum
  · obtain ⟨i, j, hband⟩ := h5 h
    rw [reached_of_le h, Option.bind_some, hband, reached]
    split_ifs <;> rfl
  · rw [reached, if_neg h, if_neg, Option.bind_none]
    rw [planOf, List.length_append]
    omega

/-! ## The channels of the access point -/

/-- The channels of a triplet: they are 1 apart for 2.4 GHz, and 4 apart for 5 GHz. -/
def tripletChannels (fcn noc : ℕ) : List ℕ :=
  (List.range noc).map fun j => if fcn ≤ 14 then fcn + j else fcn + j * 4

/-- The channels of a country element, behind the country code. -/
def apChannels : List Byte → List ℕ
  | fcn :: noc :: _ :: p => tripletChannels fcn.toNat noc.toNat ++ apChannels p
  | _ => []

@[simp]
theorem length_tripletChannels (fcn noc : ℕ) : (tripletChannels fcn noc).length = noc := by
  rw [tripletChannels, List.length_map, List.length_range]

theorem addChannels_eq (c : ℕ → Byte) (l : List ℕ) {ap : List Byte}
    (h : ap.length ≤ maxChannelNum) :
    l.foldlM (fun ap j => addChannel ap (c j)) ap =
      if ap.length + l.length ≤ maxChannelNum then some (ap ++ l.map c) else none := by
  induction l generalizing ap with
  | nil =>
    rw [List.foldlM_nil, List.map_nil, List.append_nil, List.length_nil, Nat.add_zero, if_pos h]
    rfl
  | cons j l ih =>
    rw [List.foldlM_cons, addChannel]
    by_cases hlt : ap.length < maxChannelNum
    · rw [if_pos hlt, Option.bind_eq_bind, Option.bind_some, ih]
      · simp only [List.length_append, List.length_cons, List.length_nil, List.map_cons,
          List.append_assoc, List.cons_append, List.nil_append]
        congr 2
        omega
      · rw [List.length_append, List.length_singleton]
        exact hlt
    · rw [if_neg hlt, if_neg]
      · rfl
      · rw [List.length_cons]
        omega

theorem addTriplet_eq (fcn noc : Byte) {ap : List Byte} (h : ap.length ≤ maxChannelNum) :
    addTriplet ap fcn noc =
      if ap.length + noc.toNat ≤ maxChannelNum then
        some (ap ++ (tripletChannels fcn.toNat noc.toNat).map (BitVec.ofNat 8))
      else none := by
  rw [addTriplet, addChannels_eq _ _ h, List.length_range, tripletChannels, List.map_map]
  congr 3
  refine List.map_congr_left fun j _ => ?_
  rw [channelOf, Function.comp_apply]
  split_ifs
  · rw [BitVec.ofNat_add, BitVec.ofNat_toNat, BitVec.setWidth_eq]
  · rw [BitVec.ofNat_add, BitVec.ofNat_mul, BitVec.ofNat_toNat, BitVec.setWidth_eq]
    rfl

/-- The array holds the channels of the element modulo 256, if there is room for them. -/
theorem addTriplets_eq (p : List Byte) {ap : List Byte} (h : ap.length ≤ maxChannelNum) :
    addTriplets ap p =
      if ap.length + (apChannels p).length ≤ maxChannelNum then
        some (ap ++ (apChannels p).map (BitVec.ofNat 8))
      else none := by
  induction p using apChannels.induct generalizing ap with
  | case1 fcn noc power p ih =>
    rw [addTriplets, addTriplet_eq _ _ h, apChannels, List.length_append, length_tripletChannels]
    by_cases hle : ap.length + noc.toNat ≤ maxChannelNum
    · rw [if_pos hle, Option.bind_eq_bind, Option.bind_some, ih]
      · rw [List.length_append, List.length_map, length_tripletChannels, List.map_append,
          ← List.append_assoc, Nat.add_assoc]
      · rwa [List.length_append, List.length_map, length_tripletChannels]
    · rw [if_neg hle, if_neg (by omega)]
      rfl
  | case2 p hp =>
    rw [addTriplets, apChannels, List.map_nil, List.append_nil, List.length_nil, Nat.add_zero,
      if_pos h]
    · exact hp
    · exact hp

end Rtl88x2cu.Scan.ChannelPlan
