import Rtl88x2cu.Lib.Bytes
import Rtl88x2cu.Lib.WhileLoop

/-!
# The channel plan of an access point

`process_80211d` (`core/rtw_mlme.c`) adjusts the channels of the station to the country element of a
beacon. It writes the channels of the element into an array of `MAX_CHANNEL_NUM` entries, copies the
channel set, clears it, and writes the merge of both into it, first for 2.4 GHz and then for 5 GHz.

The model returns `none` for an access outside of one of the arrays, or when a loop does not end
within the iterations it is given.
-/

namespace Rtl88x2cu.Scan.ChannelPlan

open Bytes (Byte)

def maxChannelNum : ℕ := 14 + 28

/-- `RTW_CHF_NO_IR`. -/
def chfNoIr : Byte := 1

def wireless11g : Byte := 2

def wireless11a : Byte := 4

/-- `RT_CHANNEL_INFO`. -/
structure RtChannelInfo where
  channelNum : Byte
  flags : Byte
  deriving DecidableEq, Repr

/-- An entry that has been cleared. -/
def zeroInfo : RtChannelInfo := ⟨0, 0⟩

/-- `rfctl->channel_set`. -/
structure ChannelSet where
  infos : List RtChannelInfo
  size : infos.length = maxChannelNum
  deriving DecidableEq

namespace ChannelSet

def zero : ChannelSet := ⟨List.replicate maxChannelNum zeroInfo, List.length_replicate⟩

/-- An assignment to the entry `k`. -/
def modify (set : ChannelSet) (k : ℕ) (f : RtChannelInfo → RtChannelInfo) : Option ChannelSet :=
  if k < maxChannelNum then
    some ⟨set.infos.modify k f, (List.length_modify f _ _).trans set.size⟩
  else none

end ChannelSet

/-- What the function reads and changes. -/
structure Adapter where
  enable80211d : Bool
  wirelessMode : Byte
  updateChannelPlanByApDone : Bool
  channelSet : ChannelSet
  deriving DecidableEq

/-! ## The channels of the access point -/

/-- The channel `j` of a triplet, in a `u8`. -/
def channelOf (fcn : Byte) (j : ℕ) : Byte :=
  if fcn.toNat ≤ 14 then fcn + BitVec.ofNat 8 j else fcn + BitVec.ofNat 8 j * 4

/-- `chplan_ap.Channel[i++] = channel`. The list is the part of the array that has been written. -/
def addChannel (ap : List Byte) (channel : Byte) : Option (List Byte) :=
  if ap.length < maxChannelNum then some (ap ++ [channel]) else none

/-- The channels of a triplet. -/
def addTriplet (ap : List Byte) (fcn noc : Byte) : Option (List Byte) :=
  (List.range noc.toNat).foldlM (fun ap j => addChannel ap (channelOf fcn j)) ap

/-- The loop over the triplets. The third byte, the power, is not looked at. -/
def addTriplets (ap : List Byte) : List Byte → Option (List Byte)
  | fcn :: noc :: _ :: p => do addTriplets (← addTriplet ap fcn noc) p
  | _ => some ap

/-! ## The merge -/

/-- The indices into the station's channels, those of the access point and the new ones. -/
structure Merging where
  i : ℕ
  j : ℕ
  k : ℕ
  chplanNew : ChannelSet
  deriving DecidableEq

/-- An assignment to `chplan_new[k]`, and `k++`. -/
def Merging.put (s : Merging) (f : RtChannelInfo → RtChannelInfo) : Option Merging := do
  let new ← s.chplanNew.modify s.k f
  some { s with chplanNew := new, k := s.k + 1 }

/-- There is an entry at the index, and it does not stop the loop. -/
def more {α : Type*} (stop : α → Bool) (xs : List α) (i : ℕ) : Bool :=
  match xs[i]? with
  | none => false
  | some x => !stop x

section Loops

variable (sta : List RtChannelInfo) (ap : List Byte)

/-- The station's channel and the one of the access point are compared. -/
def mergeBody (s : Merging) : Option Merging := do
  let a ← sta[s.i]?
  let b ← ap[s.j]?
  if a.channelNum = b then do
    let s ← s.put fun e => { e with channelNum := b }
    some { s with i := s.i + 1, j := s.j + 1 }
  else if a.channelNum.toNat < b.toNat then do
    let s ← s.put fun e => { channelNum := a.channelNum, flags := e.flags ||| chfNoIr }
    some { s with i := s.i + 1 }
  else do
    let s ← s.put fun e => { e with channelNum := b }
    some { s with j := s.j + 1 }

/-- A channel of the station, which is made passive or keeps its flag. -/
def staBody (passive : Bool) (s : Merging) : Option Merging := do
  let a ← sta[s.i]?
  let s ← s.put fun e =>
    { channelNum := a.channelNum
      flags := if passive || a.flags &&& chfNoIr ≠ 0 then e.flags ||| chfNoIr else e.flags }
  some { s with i := s.i + 1 }

/-- A channel of the access point. -/
def apBody (s : Merging) : Option Merging := do
  let b ← ap[s.j]?
  let s ← s.put fun e => { e with channelNum := b }
  some { s with j := s.j + 1 }

variable (staEnd : RtChannelInfo → Bool) (apEnd : Byte → Bool) (n : ℕ)

def moreSta (s : Merging) : Bool := more staEnd sta s.i

def moreAp (s : Merging) : Bool := more apEnd ap s.j

def moreOfBoth (s : Merging) : Bool := moreSta sta staEnd s && moreAp ap apEnd s

/-- What is left of a band when one of the lists has come to its end. -/
def restBand (s : Merging) : Option Merging := do
  -- change AP not support channel to Passive scan
  let s ← whileLoop (moreSta sta staEnd) (staBody sta true) n s
  -- add channel AP supported
  whileLoop (moreAp ap apEnd) (apBody ap) n s

/-- A band that is enabled. -/
def mergeBand (s : Merging) : Option Merging := do
  let s ← whileLoop (moreOfBoth sta ap staEnd apEnd) (mergeBody sta ap) n s
  restBand sta ap staEnd apEnd n s

/-- A band that is not enabled: the plan of the station is kept. -/
def keepBand (s : Merging) : Option Merging :=
  whileLoop (moreSta sta staEnd) (staBody sta false) n s

/-- The channels of the access point in a band that is not enabled. -/
def skipBand (s : Merging) : Option Merging :=
  whileLoop (moreAp ap apEnd) (fun s => some { s with j := s.j + 1 }) n s

end Loops

/-- The end of the station's 2.4 GHz channels. -/
def staEnd24 (a : RtChannelInfo) : Bool := a.channelNum = 0 || 14 < a.channelNum.toNat

def apEnd24 (b : Byte) : Bool := 14 < b.toNat

def staEnd (a : RtChannelInfo) : Bool := a.channelNum = 0

def apEnd (b : Byte) : Bool := b = 0

section Bands

variable (wirelessMode : Byte) (sta : List RtChannelInfo) (ap : List Byte) (n : ℕ) (s : Merging)

def band24 : Option Merging :=
  if wirelessMode &&& wireless11g ≠ 0 then mergeBand sta ap staEnd24 apEnd24 n s
  else do
    let s ← keepBand sta staEnd24 n s
    skipBand ap apEnd24 n s

def band5 : Option Merging :=
  if wirelessMode &&& wireless11a ≠ 0 then mergeBand sta ap staEnd apEnd n s
  else keepBand sta staEnd n s

end Bands

/-- The new channel set. An iteration goes on in one of the arrays, so there are enough of them. -/
def newPlan (wirelessMode : Byte) (sta : List RtChannelInfo) (ap : List Byte) :
    Option ChannelSet := do
  let n := maxChannelNum + maxChannelNum
  let s : Merging := { i := 0, j := 0, k := 0, chplanNew := ChannelSet.zero }
  let s ← band24 wirelessMode sta ap n s
  let s ← band5 wirelessMode sta ap n s
  some s.chplanNew

/-- `process_80211d`, where `rtw_get_ie` finds the body `ie` of a country element. `alloc` is
whether there is memory for the copy of the channel set. -/
def process80211d (ie : Option (List Byte)) (alloc : Bool) (p : Adapter) : Option Adapter :=
  if p.enable80211d && !p.updateChannelPlanByApDone then
    match ie with
    | none => some p
    | some ie =>
      if ie.length < 6 then some p
      else do
        -- the country code is only printed
        let ap ← addTriplets [] (ie.drop 3)
        if alloc then do
          let new ← newPlan p.wirelessMode p.channelSet.infos ap
          some { p with channelSet := new, updateChannelPlanByApDone := true }
        else some p
  else some p

end Rtl88x2cu.Scan.ChannelPlan
