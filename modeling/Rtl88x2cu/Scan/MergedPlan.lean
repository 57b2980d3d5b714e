import Mathlib.Algebra.Order.Ring.Nat
import Mathlib.Data.List.TakeWhile
import Rtl88x2cu.Scan.ChannelPlanRun

/-!
# When the channel plan is merged

`MergedPlan` says what the new channel set is for: the channels of the station, and those of the
access point in the bands that are enabled. `process80211d_iff` says for which country elements and
channel sets `process_80211d` stays inside its arrays and leaves such a set.
-/

namespace Rtl88x2cu.Scan.ChannelPlan

open Bytes (Byte)
open ListMerge ListMerge.Merged

/-! ## The merged plan -/

/-- The band of a channel is enabled. -/
def Enabled (wirelessMode : Byte) (c : ℕ) : Prop :=
  if c ≤ 14 then wirelessMode &&& wireless11g ≠ 0 else wirelessMode &&& wireless11a ≠ 0

def channels (l : List RtChannelInfo) : List ℕ := l.map staKey

/-- The plan `new` for a station with the channels `S` at an access point with the channels `U`. -/
structure MergedPlan (wirelessMode : Byte) (S : List RtChannelInfo) (U : List ℕ)
    (new : List RtChannelInfo) : Prop where
  mem : ∀ c, c ∈ channels new ↔ c ∈ channels S ∨ c ∈ U ∧ Enabled wirelessMode c
  nodup : (channels S).Pairwise (· < ·) → U.Pairwise (· < ·) → (channels new).Nodup
  /-- A channel of the station that the access point does not list is passive. -/
  noIr : ∀ a ∈ new, staKey a ∈ channels S → staKey a ∉ U → Enabled wirelessMode (staKey a) →
    a.flags &&& chfNoIr ≠ 0

/-! ## What the loops go through -/

section Taken

variable (wirelessMode : Byte) (S : List RtChannelInfo) (U : List ℕ)

/-- The channels of the access point that are merged: for 2.4 GHz those in front of the first one of
5 GHz, and for 5 GHz the others, up to a channel 0. -/
def taken : List ℕ :=
  (if wirelessMode &&& wireless11g ≠ 0 then U.takeWhile is24 else []) ++
    if wirelessMode &&& wireless11a ≠ 0 then (U.dropWhile is24).takeWhile (· ≠ 0) else []

/-- The channels of the station that keep their flags. -/
def kept : List RtChannelInfo :=
  (if wirelessMode &&& wireless11g ≠ 0 then [] else S.takeWhile fun a => is24 (staKey a)) ++
    if wirelessMode &&& wireless11a ≠ 0 then [] else S.dropWhile fun a => is24 (staKey a)

/-- The number of channels in the merged plan. -/
def planSize : ℕ :=
  (merge staKey id (S.takeWhile fun a => is24 (staKey a))
      (if wirelessMode &&& wireless11g ≠ 0 then U.takeWhile is24 else [])).length +
    (merge staKey id (S.dropWhile fun a => is24 (staKey a))
      (if wirelessMode &&& wireless11a ≠ 0 then (U.dropWhile is24).takeWhile (· ≠ 0)
        else [])).length

/-- What the channels have to be for the plan to be merged. -/
structure PlanOk : Prop where
  fits : planSize wirelessMode S U ≤ maxChannelNum
  /-- The channels to take are channels, and come in the order of the bands. -/
  listed : ∀ c ∈ U, Enabled wirelessMode c →
    c ≠ 0 ∧ c < 256 ∧ (c ∈ taken wirelessMode U ∨ c ∈ channels S)
  others : ∀ c ∈ taken wirelessMode U, ¬ Enabled wirelessMode c → c ∈ channels S
  passive : ∀ a ∈ kept wirelessMode S, Enabled wirelessMode (staKey a) → staKey a ∉ U →
    a.flags &&& chfNoIr ≠ 0

end Taken

/-! ## The channels in the array -/

section Array

variable {l m : List ℕ} {p q : ℕ → Bool}

theorem takeWhile_append_congr (hl : l.takeWhile p = l.takeWhile q)
    (hm : m.takeWhile p = m.takeWhile q) : (l ++ m).takeWhile p = (l ++ m).takeWhile q := by
  rw [List.takeWhile_append, List.takeWhile_append, hl, hm]

/-- The 2.4 GHz channels of a triplet end before they wrap around. -/
theorem takeWhile_run {s : ℕ} (hs : s ≤ 15) (n : ℕ) :
    ((List.range n).map (s + ·)).takeWhile (fun c => is24 (c % 256)) =
      ((List.range n).map (s + ·)).takeWhile is24 := by
  induction n generalizing s with
  | zero => rfl
  | succ n ih =>
    have hhead : is24 ((s + 0) % 256) = is24 (s + 0) := by
      rw [Nat.mod_eq_of_lt (by omega)]
    have htail : ((List.range n).map Nat.succ).map (s + ·) = (List.range n).map (s + 1 + ·) := by
      rw [List.map_map]
      refine List.map_congr_left fun j _ => ?_
      rw [Function.comp_apply]
      omega
    rw [List.range_succ_eq_map, List.map_cons, htail, List.takeWhile_cons, List.takeWhile_cons,
      hhead]
    cases h : is24 (s + 0) with
    | false => rfl
    | true =>
      have hlt : s ≤ 14 := by simpa [is24] using h
      simp only [if_true, ih (by omega : s + 1 ≤ 15)]

theorem takeWhile_tripletChannels {fcn : ℕ} (hfcn : fcn < 256) (noc : ℕ) :
    (tripletChannels fcn noc).takeWhile (fun c => is24 (c % 256)) =
      (tripletChannels fcn noc).takeWhile is24 := by
  unfold tripletChannels
  by_cases hle : fcn ≤ 14
  · simp only [if_pos hle]
    exact takeWhile_run (by omega) noc
  · simp only [if_neg hle]
    cases noc with
    | zero => rfl
    | succ n =>
      -- the first channel is one of 5 GHz
      have hhead : is24 ((fcn + 0 * 4) % 256) = false ∧ is24 (fcn + 0 * 4) = false := by
        rw [Nat.zero_mul, Nat.add_zero, Nat.mod_eq_of_lt hfcn, is24, decide_eq_false hle]
        exact ⟨rfl, rfl⟩
      rw [List.range_succ_eq_map, List.map_cons, List.takeWhile_cons, List.takeWhile_cons, hhead.1,
        hhead.2]
      rfl

/-- The 2.4 GHz channels in front are not changed by the array. -/
theorem takeWhile_apChannels (e : List Byte) :
    (apChannels e).takeWhile (fun c => is24 (c % 256)) = (apChannels e).takeWhile is24 := by
  induction e using apChannels.induct with
  | case1 fcn noc power e ih =>
    rw [apChannels]
    exact takeWhile_append_congr (takeWhile_tripletChannels fcn.isLt _) ih
  | case2 e he =>
    rw [apChannels]
    · rfl
    · exact he

/-- The array holds the channels that the loops go through. -/
structure Reads (wirelessMode : Byte) (A : List Byte) (U : List ℕ) : Prop where
  head : (A.takeWhile fun b => is24 b.toNat).map BitVec.toNat = U.takeWhile is24
  tail : wirelessMode &&& wireless11a ≠ 0 →
    ((A.dropWhile fun b => is24 b.toNat).takeWhile fun b => !apEnd b).map BitVec.toNat =
      (U.dropWhile is24).takeWhile (· ≠ 0)

theorem map_toNat_ofNat {l : List ℕ} (h : ∀ c ∈ l, c < 256) :
    (l.map (BitVec.ofNat 8)).map BitVec.toNat = l := by
  rw [List.map_map]
  refine (List.map_congr_left fun c hc => ?_).trans (List.map_id l)
  rw [Function.comp_apply, BitVec.toNat_ofNat]
  exact Nat.mod_eq_of_lt (h c hc)

theorem not_apEnd (b : Byte) : (!apEnd b) = decide (b.toNat ≠ 0) := by
  rw [apEnd, ← decide_not]
  refine decide_eq_decide.mpr (not_congr ?_)
  rw [← BitVec.toNat_inj]
  rfl

/-- For 2.4 GHz the array is always right, for 5 GHz if no channel wraps around. -/
theorem reads_apChannels (wirelessMode : Byte) (e : List Byte)
    (h : wirelessMode &&& wireless11a ≠ 0 → ∀ c ∈ apChannels e, c < 256) :
    Reads wirelessMode ((apChannels e).map (BitVec.ofNat 8)) (apChannels e) where
  head := by
    have hmod : ((fun b : Byte => is24 b.toNat) ∘ BitVec.ofNat 8) = fun c => is24 (c % 256) := rfl
    rw [List.takeWhile_map, hmod, takeWhile_apChannels]
    refine map_toNat_ofNat fun c hc => ?_
    have hle : c ≤ 14 := by simpa [is24] using List.mem_takeWhile_imp hc
    omega
  tail ha := by
    have hread := map_toNat_ofNat (h ha)
    simp only [not_apEnd]
    have htake := List.takeWhile_map (f := BitVec.toNat) (p := fun c => decide (c ≠ 0))
      (l := ((apChannels e).map (BitVec.ofNat 8)).dropWhile fun b => is24 b.toNat)
    have hdrop := List.dropWhile_map (f := BitVec.toNat) (p := is24)
      (l := (apChannels e).map (BitVec.ofNat 8))
    rw [hread] at hdrop
    rw [hdrop]
    exact htake.symm

end Array

/-! ## The entries of the plan -/

section Entries

variable {wirelessMode : Byte} {S : List RtChannelInfo} {A : List Byte} {U : List ℕ}

theorem staKey_infoOf (m : Merged RtChannelInfo Byte) :
    staKey (infoOf m) = m.key staKey BitVec.toNat := by
  cases m <;> rfl

/-- The channels of a band that is enabled. -/
theorem channels_merge (S : List RtChannelInfo) (A : List Byte) :
    channels ((merge staKey BitVec.toNat S A).map infoOf) =
      (merge staKey BitVec.toNat S A).map (key staKey BitVec.toNat) := by
  rw [channels, List.map_map]
  exact List.map_congr_left fun m _ => staKey_infoOf m

theorem mem_channels_merge {c : ℕ} :
    c ∈ channels ((merge staKey BitVec.toNat S A).map infoOf) ↔
      c ∈ channels S ∨ c ∈ A.map BitVec.toNat := by
  rw [channels_merge]
  exact mem_key_merge

theorem channels_staInfo (passive : Bool) (S : List RtChannelInfo) :
    channels (S.map (staInfo passive)) = channels S := by
  rw [channels, List.map_map]
  rfl

theorem length_merge (S : List RtChannelInfo) (A : List Byte) :
    (merge staKey id S (A.map BitVec.toNat)).length = (merge staKey BitVec.toNat S A).length := by
  rw [merge_map_right, List.length_map]
  rfl

theorem mem_channels_cut (p : RtChannelInfo → Bool) {c : ℕ} :
    c ∈ channels (S.takeWhile p) ∨ c ∈ channels (S.dropWhile p) ↔ c ∈ channels S := by
  conv_rhs => rw [← List.takeWhile_append_dropWhile (p := p) (l := S), channels, List.map_append,
    List.mem_append]
  rfl

theorem mem_plan24 (h : Reads wirelessMode A U) {c : ℕ} :
    c ∈ channels (plan24 wirelessMode S A) ↔
      c ∈ channels (S.takeWhile fun a => is24 (staKey a)) ∨
        c ∈ if wirelessMode &&& wireless11g ≠ 0 then U.takeWhile is24 else [] := by
  unfold plan24
  split_ifs
  · rw [mem_channels_merge, h.head]
  · rw [channels_staInfo, or_iff_left List.not_mem_nil]

theorem mem_plan5 (h : Reads wirelessMode A U) {c : ℕ} :
    c ∈ channels (plan5 wirelessMode S A) ↔
      c ∈ channels (S.dropWhile fun a => is24 (staKey a)) ∨
        c ∈ if wirelessMode &&& wireless11a ≠ 0 then (U.dropWhile is24).takeWhile (· ≠ 0)
          else [] := by
  unfold plan5
  split_ifs with ha
  · rw [mem_channels_merge, h.tail ha]
  · rw [channels_staInfo, or_iff_left List.not_mem_nil]

theorem channels_planOf (wirelessMode : Byte) (S : List RtChannelInfo) (A : List Byte) :
    channels (planOf wirelessMode S A) =
      channels (plan24 wirelessMode S A) ++ channels (plan5 wirelessMode S A) := by
  rw [planOf, channels, List.map_append]
  rfl

/-- The channels of the plan. -/
theorem mem_planOf (h : Reads wirelessMode A U) {c : ℕ} :
    c ∈ channels (planOf wirelessMode S A) ↔ c ∈ channels S ∨ c ∈ taken wirelessMode U := by
  rw [channels_planOf, List.mem_append, mem_plan24 h, mem_plan5 h, taken, List.mem_append,
    ← mem_channels_cut (S := S) fun a => is24 (staKey a)]
  tauto

theorem length_planOf (h : Reads wirelessMode A U) :
    (planOf wirelessMode S A).length = planSize wirelessMode S U := by
  rw [planOf, List.length_append, plan24, plan5, planSize]
  congr 1
  · split_ifs
    · rw [List.length_map, ← length_merge, h.head]
    · rw [merge_nil_right, List.length_map, List.length_map]
  · split_ifs with ha
    · rw [List.length_map, ← length_merge, h.tail ha]
    · rw [merge_nil_right, List.length_map, List.length_map]

theorem staInfo_flags (a : RtChannelInfo) :
    (staInfo false a).flags &&& chfNoIr ≠ 0 ↔ a.flags &&& chfNoIr ≠ 0 := by
  by_cases hflag : a.flags &&& chfNoIr = 0
  · simp [staInfo, hflag]
  · refine iff_of_true ?_ hflag
    simp only [staInfo, Bool.false_or, decide_eq_true hflag, if_true]
    decide

/-- In a band that is enabled, what the access point does not list is passive. -/
theorem noIr_merge {a : RtChannelInfo} (ha : a ∈ (merge staKey BitVec.toNat S A).map infoOf)
    (hkey : staKey a ∉ A.map BitVec.toNat) : a.flags &&& chfNoIr ≠ 0 := by
  obtain ⟨m, hm, rfl⟩ := List.mem_map.mp ha
  rw [staKey_infoOf] at hkey
  obtain ⟨b, -, rfl⟩ := exists_left_of_mem_merge hm hkey
  show chfNoIr &&& chfNoIr ≠ 0
  decide

theorem mem_taken_head {c : ℕ} (hg : wirelessMode &&& wireless11g ≠ 0) (hc : c ∈ U.takeWhile is24) :
    c ∈ taken wirelessMode U := by
  rw [taken, if_pos hg]
  exact List.mem_append_left _ hc

theorem mem_taken_tail {c : ℕ} (ha : wirelessMode &&& wireless11a ≠ 0)
    (hc : c ∈ (U.dropWhile is24).takeWhile (· ≠ 0)) : c ∈ taken wirelessMode U := by
  rw [taken, if_pos ha]
  exact List.mem_append_right _ hc

theorem taken_subset {c : ℕ} (hc : c ∈ taken wirelessMode U) : c ∈ U := by
  rw [taken, List.mem_append] at hc
  obtain hc | hc := hc
  · split_ifs at hc
    · exact (List.takeWhile_sublist _).subset hc
    · cases hc
  · split_ifs at hc
    · exact (List.dropWhile_sublist _).subset ((List.takeWhile_sublist _).subset hc)
    · cases hc

/-- Of the channels that the access point does not list, only those that keep their flags may not be
passive. -/
theorem noIr_planOf_iff (h : Reads wirelessMode A U) :
    (∀ a ∈ planOf wirelessMode S A, staKey a ∈ channels S → staKey a ∉ U →
        Enabled wirelessMode (staKey a) → a.flags &&& chfNoIr ≠ 0) ↔
      ∀ a ∈ kept wirelessMode S, Enabled wirelessMode (staKey a) → staKey a ∉ U →
        a.flags &&& chfNoIr ≠ 0 := by
  constructor
  · intro hplan a ha hen hU
    have hmem : staInfo false a ∈ planOf wirelessMode S A ∧ a ∈ S := by
      rw [kept, List.mem_append] at ha
      rw [planOf, List.mem_append, plan24, plan5]
      obtain ha | ha := ha
      · split_ifs at ha with hg
        · cases ha
        · rw [if_neg (not_not.mpr (not_not.mp hg))]
          exact ⟨Or.inl (List.mem_map_of_mem ha), (List.takeWhile_sublist _).subset ha⟩
      · split_ifs at ha with hg
        · cases ha
        · rw [if_neg (not_not.mpr (not_not.mp hg))]
          exact ⟨Or.inr (List.mem_map_of_mem ha), (List.dropWhile_sublist _).subset ha⟩
    have hkey : staKey a ∈ channels S := List.mem_map_of_mem hmem.2
    exact (staInfo_flags a).mp (hplan _ hmem.1 hkey hU hen)
  · intro hkept a ha _ hU hen
    rw [planOf, List.mem_append, plan24, plan5] at ha
    obtain ha | ha := ha
    · split_ifs at ha with hg
      · refine noIr_merge ha fun hkey => hU (taken_subset (mem_taken_head hg ?_))
        rwa [← h.head]
      · obtain ⟨b, hb, rfl⟩ := List.mem_map.mp ha
        refine (staInfo_flags b).mpr (hkept b ?_ hen hU)
        rw [kept, if_neg hg]
        exact List.mem_append_left _ hb
    · split_ifs at ha with hg
      · refine noIr_merge ha fun hkey => hU (taken_subset (mem_taken_tail hg ?_))
        rwa [← h.tail hg]
      · obtain ⟨b, hb, rfl⟩ := List.mem_map.mp ha
        refine (staInfo_flags b).mpr (hkept b ?_ hen hU)
        rw [kept, if_neg hg]
        exact List.mem_append_right _ hb

/-- In an increasing list the 2.4 GHz channels are in front. -/
theorem not_is24_of_mem_dropWhile {l : List ℕ} (h : l.Pairwise (· < ·)) {c : ℕ}
    (hc : c ∈ l.dropWhile is24) : 14 < c := by
  induction l with
  | nil => cases hc
  | cons d l ih =>
    obtain ⟨hd, hl⟩ := List.pairwise_cons.mp h
    rw [List.dropWhile_cons] at hc
    split_ifs at hc with h24
    · exact ih hl hc
    · have hlt : 14 < d := by simpa [is24] using h24
      obtain rfl | hc := List.mem_cons.mp hc
      · exact hlt
      · exact hlt.trans (hd c hc)

/-- The merge of a band. -/
theorem pairwise_channels_merge (hS : (channels S).Pairwise (· < ·))
    (hA : (A.map BitVec.toNat).Pairwise (· < ·)) :
    (channels ((merge staKey BitVec.toNat S A).map infoOf)).Pairwise (· < ·) := by
  rw [channels_merge]
  exact pairwise_merge hS hA

/-- The plan of increasing lists is increasing. -/
theorem pairwise_planOf (h : Reads wirelessMode A U) (hS : (channels S).Pairwise (· < ·))
    (hU : U.Pairwise (· < ·)) : (channels (planOf wirelessMode S A)).Pairwise (· < ·) := by
  have hS24 : (channels (S.takeWhile fun a => is24 (staKey a))).Pairwise (· < ·) :=
    hS.sublist ((List.takeWhile_sublist _).map _)
  have hS5 : (channels (S.dropWhile fun a => is24 (staKey a))).Pairwise (· < ·) :=
    hS.sublist ((List.dropWhile_sublist _).map _)
  rw [channels_planOf, List.pairwise_append]
  refine ⟨?_, ?_, fun c hc d hd => ?_⟩
  · unfold plan24
    split_ifs
    · refine pairwise_channels_merge hS24 ?_
      rw [h.head]
      exact hU.sublist (List.takeWhile_sublist _)
    · rwa [channels_staInfo]
  · unfold plan5
    split_ifs with ha
    · refine pairwise_channels_merge hS5 ?_
      rw [h.tail ha]
      exact hU.sublist ((List.takeWhile_sublist _).trans (List.dropWhile_sublist _))
    · rwa [channels_staInfo]
  · -- the channels of the first band are at most 14, those of the second one are not
    have hle : c ≤ 14 := by
      obtain hc | hc := (mem_plan24 h).mp hc
      · obtain ⟨a, ha, rfl⟩ := List.mem_map.mp hc
        simpa [is24] using List.mem_takeWhile_imp ha
      · split_ifs at hc
        · simpa [is24] using List.mem_takeWhile_imp hc
        · cases hc
    have hlt : 14 < d := by
      obtain hd | hd := (mem_plan5 h).mp hd
      · refine not_is24_of_mem_dropWhile hS ?_
        rw [channels, List.dropWhile_map]
        exact hd
      · split_ifs at hd
        · exact not_is24_of_mem_dropWhile hU ((List.takeWhile_sublist _).subset hd)
        · cases hd
    omega

end Entries

/-! ## The merged plan is left exactly then -/

section Iff

variable {wirelessMode : Byte} {A : List Byte} {U : List ℕ}

theorem ne_zero_of_mem_stationOf {set : ChannelSet} {c : ℕ} (hc : c ∈ channels (stationOf set)) :
    c ≠ 0 := by
  obtain ⟨a, ha, rfl⟩ := List.mem_map.mp hc
  have hend := List.mem_takeWhile_imp ha
  intro hzero
  have hnum : a.channelNum = 0 := BitVec.eq_of_toNat_eq hzero
  simp [staEnd, hnum] at hend

theorem lt_of_mem_channels {l : List RtChannelInfo} {c : ℕ} (hc : c ∈ channels l) : c < 256 := by
  obtain ⟨a, -, rfl⟩ := List.mem_map.mp hc
  exact a.channelNum.isLt

/-- If the channels of the enabled bands fit into a byte, those of the array are right. -/
theorem reads_of_enabled (e : List Byte)
    (h : ∀ c ∈ apChannels e, Enabled wirelessMode c → c < 256) :
    Reads wirelessMode ((apChannels e).map (BitVec.ofNat 8)) (apChannels e) := by
  refine reads_apChannels wirelessMode e fun ha c hc => ?_
  by_cases hle : c ≤ 14
  · omega
  · refine h c hc ?_
    rw [Enabled, if_neg hle]
    exact ha

/-- The channels of the new channel set are those that have been written, unless one of them is
0. -/
theorem stationOf_setOf {out : List RtChannelInfo} (hlen : out.length ≤ maxChannelNum)
    (h : 0 ∉ channels out) : stationOf (setOf out) = out := by
  have hall : ∀ a ∈ out, (!staEnd a) = true := by
    intro a ha
    have hne : a.channelNum ≠ 0 := fun hzero =>
      h (List.mem_map.mpr ⟨a, ha, congrArg BitVec.toNat hzero⟩)
    simpa [staEnd] using hne
  have hinfos : (setOf out).infos =
      out ++ List.replicate (maxChannelNum - out.length) zeroInfo :=
    congrArg (· ++ List.replicate (maxChannelNum - out.length) zeroInfo)
      (List.take_of_length_le hlen)
  rw [stationOf, hinfos, List.takeWhile_append_of_pos hall, List.takeWhile_replicate]
  exact List.append_nil out

/-- A channel 0 is taken for 2.4 GHz only. -/
theorem zero_mem_taken (h : 0 ∈ taken wirelessMode U) : 0 ∈ U ∧ Enabled wirelessMode 0 := by
  refine ⟨taken_subset h, ?_⟩
  rw [taken, List.mem_append] at h
  obtain h | h := h
  · split_ifs at h with hg
    · exact hg
    · cases h
  · split_ifs at h
    · exact absurd (List.mem_takeWhile_imp h) (by decide)
    · cases h

/-- The set that has been written is the merged plan. -/
theorem mergedPlan_iff (set : ChannelSet) (h : Reads wirelessMode A U)
    (hlen : (planOf wirelessMode (stationOf set) A).length ≤ maxChannelNum) :
    MergedPlan wirelessMode (stationOf set) U
        (stationOf (setOf (planOf wirelessMode (stationOf set) A))) ↔
      PlanOk wirelessMode (stationOf set) U := by
  obtain ⟨out, hout⟩ : ∃ out, out = planOf wirelessMode (stationOf set) A := ⟨_, rfl⟩
  have hmem {c : ℕ} : c ∈ channels out ↔
      c ∈ channels (stationOf set) ∨ c ∈ taken wirelessMode U := hout ▸ mem_planOf h
  -- a channel 0 that is written is one that the access point lists in a band that is enabled
  have hzero : 0 ∈ channels out → 0 ∈ U ∧ Enabled wirelessMode 0 := fun h0 =>
    (hmem.mp h0).elim (fun hS => absurd rfl (ne_zero_of_mem_stationOf hS)) zero_mem_taken
  rw [← hout] at hlen ⊢
  constructor
  · intro hm
    have h0 : 0 ∉ channels out := fun h0 =>
      ne_zero_of_mem_stationOf ((hm.mem 0).mpr (Or.inr (hzero h0))) rfl
    rw [stationOf_setOf hlen h0] at hm
    refine ⟨?_, fun c hc hen => ?_, fun c hc hen => ?_, (noIr_planOf_iff h).mp (hout ▸ hm.noIr)⟩
    · rw [← length_planOf h, ← hout]
      exact hlen
    · have hplan : c ∈ channels out := (hm.mem c).mpr (Or.inr ⟨hc, hen⟩)
      exact ⟨fun hzero => h0 (hzero ▸ hplan), lt_of_mem_channels hplan, (hmem.mp hplan).symm⟩
    · exact ((hm.mem c).mp (hmem.mpr (Or.inr hc))).resolve_right fun hU => hen hU.2
  · intro hok
    have h0 : 0 ∉ channels out := fun h0 =>
      (hok.listed 0 (hzero h0).1 (hzero h0).2).1 rfl
    rw [stationOf_setOf hlen h0]
    refine ⟨fun c => ?_, fun hS hU => ?_, hout ▸ (noIr_planOf_iff h).mpr hok.passive⟩
    · rw [hmem]
      constructor
      · rintro (hc | hc)
        · exact Or.inl hc
        · by_cases hen : Enabled wirelessMode c
          · exact Or.inr ⟨taken_subset hc, hen⟩
          · exact Or.inl (hok.others c hc hen)
      · rintro (hc | ⟨hc, hen⟩)
        · exact Or.inl hc
        · exact (hok.listed c hc hen).2.2.symm
    · rw [hout]
      exact (pairwise_planOf h hS hU).imp ne_of_lt

end Iff

/-! ## The country element -/

/-- The body of the country element that the plan is adjusted to. -/
def adjustsTo (p : Adapter) (ie : Option (List Byte)) : Option (List Byte) :=
  if p.enable80211d && !p.updateChannelPlanByApDone then ie.filter fun ie => 6 ≤ ie.length else none

/-- The function returns without an access outside of the arrays. If there is an element to adjust
the plan to, and memory, the channel set is the merged plan; otherwise nothing changes. -/
def PlanMerged (ie : Option (List Byte)) (alloc : Bool) (p : Adapter) : Prop :=
  ∃ p', process80211d ie alloc p = some p' ∧
    match (adjustsTo p ie).filter fun _ => alloc with
    | none => p' = p
    | some e =>
      p' = { p with channelSet := p'.channelSet, updateChannelPlanByApDone := true } ∧
        MergedPlan p.wirelessMode (stationOf p.channelSet) (apChannels (e.drop 3))
          (stationOf p'.channelSet)

theorem process80211d_of_none {p : Adapter} {ie : Option (List Byte)} (alloc : Bool)
    (h : adjustsTo p ie = none) : process80211d ie alloc p = some p := by
  unfold adjustsTo at h
  unfold process80211d
  by_cases hen : (p.enable80211d && !p.updateChannelPlanByApDone) = true
  · rw [if_pos hen] at h ⊢
    cases ie with
    | none => rfl
    | some ie =>
      have hshort : ie.length < 6 := by simpa [Option.filter] using h
      exact if_pos hshort
  · rw [if_neg hen]

/-- The plan is adjusted to the element `e`. -/
theorem process80211d_of_some {p : Adapter} {ie : Option (List Byte)} {e : List Byte} (alloc : Bool)
    (h : adjustsTo p ie = some e) :
    process80211d ie alloc p =
      if (apChannels (e.drop 3)).length ≤ maxChannelNum then
        if alloc then do
          let new ← newPlan p.wirelessMode p.channelSet.infos
            ((apChannels (e.drop 3)).map (BitVec.ofNat 8))
          some { p with channelSet := new, updateChannelPlanByApDone := true }
        else some p
      else none := by
  unfold adjustsTo at h
  unfold process80211d
  split_ifs at h with hen
  obtain ⟨hie, hlen⟩ := Option.filter_eq_some_iff.mp h
  subst hie
  have hlong : ¬ e.length < 6 := by simpa using hlen
  rw [if_pos hen]
  simp only [if_neg hlong, Option.bind_eq_bind]
  have hadd : addTriplets [] (e.drop 3) = _ := addTriplets_eq (e.drop 3) (Nat.zero_le _)
  rw [List.length_nil, Nat.zero_add, List.nil_append] at hadd
  rw [hadd]
  by_cases hap : (apChannels (e.drop 3)).length ≤ maxChannelNum
  · rw [if_pos hap, if_pos hap, Option.bind_some]
  · rw [if_neg hap, if_neg hap, Option.bind_none]

/-- For every country element and channel set: the plan is merged if and only if the element lists
at most `MAX_CHANNEL_NUM` channels and, when the plan is adjusted, `PlanOk` holds. -/
theorem process80211d_iff (ie : Option (List Byte)) (alloc : Bool) (p : Adapter) :
    PlanMerged ie alloc p ↔ ∀ e, adjustsTo p ie = some e →
      (apChannels (e.drop 3)).length ≤ maxChannelNum ∧ (alloc = true →
        PlanOk p.wirelessMode (stationOf p.channelSet) (apChannels (e.drop 3))) := by
  unfold PlanMerged
  cases he : adjustsTo p ie with
  | none =>
    rw [process80211d_of_none alloc he]
    exact iff_of_true ⟨p, rfl, rfl⟩ nofun
  | some e =>
    rw [process80211d_of_some alloc he]
    simp only [Option.some_inj, forall_eq']
    by_cases hap : (apChannels (e.drop 3)).length ≤ maxChannelNum
    · rw [if_pos hap, and_iff_right hap]
      cases alloc with
      | false => exact iff_of_true ⟨p, rfl, rfl⟩ nofun
      | true =>
        rw [if_pos rfl, newPlan_eq p.wirelessMode p.channelSet (by rwa [List.length_map]),
          forall_prop_of_true rfl, Option.bind_eq_bind]
        constructor
        · rintro ⟨p', hp, hres⟩
          obtain ⟨-, hm⟩ : p' = _ ∧ MergedPlan _ _ _ (stationOf p'.channelSet) := hres
          split_ifs at hp with hlen
          · have hset : p'.channelSet = setOf _ :=
              congrArg Adapter.channelSet (Option.some.inj hp).symm
            rw [hset] at hm
            refine (mergedPlan_iff p.channelSet (reads_of_enabled _ fun c hc hen => ?_) hlen).mp hm
            exact lt_of_mem_channels ((hm.mem c).mpr (Or.inr ⟨hc, hen⟩))
          · cases hp
        · intro hok
          have hreads := reads_of_enabled _ fun c hc hen => (hok.listed c hc hen).2.1
          have hlen := (length_planOf hreads).trans_le hok.fits
          rw [if_pos hlen]
          exact ⟨_, rfl, rfl, (mergedPlan_iff p.channelSet hreads hlen).mpr hok⟩
    · rw [if_neg hap]
      exact iff_of_false (fun ⟨_, h, _⟩ => nomatch h) fun h => hap h.1

/-- A station with the channels 1, 6, 11 and 36 in a dual-band mode. -/
def dualBand : Adapter where
  enable80211d := true
  wirelessMode := 0x07
  updateChannelPlanByApDone := false
  channelSet :=
    ⟨[⟨1, 0⟩, ⟨6, 0⟩, ⟨11, 0⟩, ⟨36, 0⟩] ++ List.replicate (maxChannelNum - 4) zeroInfo, rfl⟩

/-- A triplet of 255 channels from 36 on is written behind the array. -/
theorem longTriplet_not_merged :
    ¬ PlanMerged (some [0x55, 0x53, 0x20, 36, 255, 20]) true dualBand := by
  rintro ⟨p', h, -⟩
  have hnone : process80211d (some [0x55, 0x53, 0x20, 36, 255, 20]) true dualBand = none := by
    decide
  rw [hnone] at h
  cases h

-- the channels 1 and 2 of the access point, and 36
example : (process80211d (some [0x55, 0x53, 0x20, 1, 2, 20, 36, 1, 20]) true dualBand).map
    (fun p => stationOf p.channelSet) =
      some [⟨1, 0⟩, ⟨2, 0⟩, ⟨6, 1⟩, ⟨11, 1⟩, ⟨36, 0⟩] := by decide

end Rtl88x2cu.Scan.ChannelPlan
