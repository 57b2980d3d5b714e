import Rtl88x2cu.Lib.Run
import Rtl88x2cu.Nat25.Handle

/-!
# The single-entry shortcut

Frames to be sent go through `rtw_br_client_tx` (`core/rtw_xmit.c`), and received ones through
`nat25_handle_frame` (`core/rtw_br_ext.c`). Both have a shortcut for the client that was seen last:
`scdb_mac` and `scdb_ip`, and its entry `scdb_entry` in the database.

`shortcut_run` says that the shortcut agrees with the database in a run in which every frame that it
serves is a well formed one from the MAC address and the IP address of the entry, or to an entry
that has not expired, and no ARP frame gives the entry another MAC address. `takeover_not_kept` is a
client that takes over the IP address of another one.
-/

namespace Rtl88x2cu.Nat25

open Bytes (Byte)

variable {w : ℕ}

/-! ## Sending -/

/-- What `rtw_br_client_tx` finds in the system. -/
structure TxEnv (w : ℕ) extends Env w where
  /-- `rtw_skb_copy` succeeds. -/
  copied : Bool
  /-- `skb_linearize` succeeds. -/
  linear : Bool

/-- The ageing timer of an entry is set. -/
def refreshEntry (jiffies : BitVec w) (a : Addr) (s : Adapter w) : Adapter w :=
  { s with db := s.db.setEntry a { s.db.entry a with ageingTimer := jiffies } }

/-- The entry of the shortcut, where the first test of `rtw_br_client_tx` succeeds. -/
def fastEntry (brPort : Bool) (skb : Skb) (s : Adapter w) : Option Addr :=
  if !skb.da.isMcast ∧ brPort ∧ skb.sa ≠ s.brMac ∧ skb.protocol ≠ ethP8021q ∧
      skb.protocol = ethPIp ∧ s.scdbMac = skb.sa then
    s.scdbEntry
  else
    none

/-- The part of the slow path that is about the shortcut. The second value is `do_nat25`. -/
def scdbUpdate (jiffies : BitVec w) (skb : Skb) (s : Adapter w) : Adapter w × Bool :=
  if skb.protocol = ethPIp then
    if s.scdbMac ≠ skb.sa then
      match scdbFindEntry skb.sa (ipSaddr skb) s with
      | none => ({ s with scdbEntry := none }, true)
      | some a =>
        (refreshEntry jiffies a
          { s with scdbEntry := some a, scdbMac := skb.sa, scdbIp := ipSaddr skb }, false)
    else
      match s.scdbEntry with
      | some a => (refreshEntry jiffies a s, false)
      | none => ({ s with scdbMac := zeroMac, scdbIp := zeroIp }, true)
  else
    (s, true)

/-- The address of the bridge is learnt from its frames. -/
def learnBrIp (skb : Skb) (s : Adapter w) : Adapter w :=
  if skb.sa = s.brMac ∧ skb.protocol = ethPIp then { s with brIp := ipSaddr skb } else s

/-- The frame without its VLAN tag, if it has one. -/
def untagged (skb : Skb) : Skb := if skb.protocol = ethP8021q then skb.vlanPull else skb

/-- The VLAN tag of `orig` is put back. -/
def retagged (orig skb : Skb) : Skb :=
  if orig.protocol = ethP8021q then skb.vlanPush (orig.data 14) (orig.data 15) else skb

section

variable (clk : Clock w) (pl : Payload) (dhcpFlagBcast : Skb → Skb)

/-- The check at the end of `rtw_br_client_tx`: the source is the address of the interface. -/
def saChecked (skb : Skb) (s : Adapter w) : Res w :=
  { ret := if skb.sa = s.macAddr then 0 else -1, skb := skb, adapter := s }

/-- The frame gets the address of the interface, and its VLAN tag back. -/
def transformed (orig skb : Skb) (s : Adapter w) : Res w :=
  let skb := skb.setMac 6 s.macAddr
  let skb := if s.ethBrExtInfo.dhcpBcstDisable then skb else dhcpFlagBcast skb
  saChecked (retagged orig skb) s

/-- `rtw_br_client_tx`. The flag in DHCP requests (`dhcp_flag_bcast`) is a parameter. -/
def rtwBrClientTx (env : TxEnv w) (orig : Skb) (s : Adapter w) : Res w :=
  match fastEntry env.brPort orig s with
  | some a => saChecked (orig.setMac 6 s.macAddr) (refreshEntry env.jiffies a s)
  | none =>
    let skb := untagged orig
    let s := learnBrIp skb s
    let (s, doNat25) := scdbUpdate env.jiffies skb s
    if doNat25 then
      if (nat25DbHandle clk pl .check env.toEnv skb s).ret = 0 ∧ !env.copied then
        { ret := -1, skb := retagged orig skb, adapter := s }
      else if !env.linear then
        { ret := -1, skb := skb, adapter := s }
      else
        let res := nat25DbHandle clk pl .insert env.toEnv skb s
        if res.ret = -2 then { ret := -1, skb := res.skb, adapter := res.adapter }
        else if res.ret < 0 then { ret := 0, skb := res.skb, adapter := res.adapter }
        else transformed dhcpFlagBcast orig res.skb res.adapter
    else
      transformed dhcpFlagBcast orig skb s

/-- The frame is served by the shortcut. -/
def txServed (env : TxEnv w) (orig : Skb) (s : Adapter w) : Bool :=
  (fastEntry env.brPort orig s).isSome ||
    !(scdbUpdate env.jiffies (untagged orig) (learnBrIp (untagged orig) s)).2

/-! ## Receiving -/

/-- The frame is served by the shortcut. -/
def rxServed (orig : Skb) (s : Adapter w) : Bool :=
  !orig.da.isMcast && !s.ethBrExtInfo.nat25Disable && !s.ethBrExtInfo.nat25scDisable &&
    (untagged orig).protocol = ethPIp && s.scdbIp = ipDaddr (untagged orig)

/-- `nat25_handle_frame`. -/
def nat25HandleFrame (env : Env w) (orig : Skb) (s : Adapter w) : Res w :=
  if orig.da.isMcast then
    { ret := 0, skb := orig, adapter := s }
  else
    let skb := untagged orig
    let res : Res w :=
      if !s.ethBrExtInfo.nat25Disable then
        if !s.ethBrExtInfo.nat25scDisable ∧ skb.protocol = ethPIp ∧ s.scdbIp = ipDaddr skb then
          { ret := 0, skb := skb.setMac 0 s.scdbMac, adapter := s }
        else
          nat25DbHandle clk pl .lookup env skb s
      else if (skb.protocol = ethPIp ∧ s.brIp = ipDaddr skb) ∨
          (skb.protocol = ethPArp ∧ s.brIp = skb.ip (ethHlen + 24)) then
        -- for traffic to upper TCP/IP
        nat25DbHandle clk pl .lookup env skb s
      else
        { ret := 0, skb := skb, adapter := s }
    { ret := if res.ret = -1 then -1 else 0
      skb := retagged orig res.skb
      adapter := res.adapter }

/-! ## Runs -/

/-- The events of an interface, at any times. -/
inductive BrEvent (w : ℕ) where
  | tx (env : TxEnv w) (skb : Skb)
  | rx (env : Env w) (skb : Skb)
  | expire (jiffies : BitVec w)
  | cleanup
  /-- `netdev_br_init`. -/
  | brInit (env : Env w)
  /-- The countdown of `pppoe_connection_in_progress`, twice in a period. -/
  | pppoeTick

/-- `rtw_malloc` returns memory that is not in use. -/
def BrEvent.legal (live : List Addr) : BrEvent w → Prop
  | .tx env _ => ∀ a ∈ env.mem, a ∉ live
  | _ => True

instance BrEvent.decidableLegal (live : List Addr) (e : BrEvent w) : Decidable (e.legal live) := by
  cases e <;> unfold BrEvent.legal <;> infer_instance

/-- What an event does. -/
def brApply (s : Adapter w) : BrEvent w → Adapter w
  | .tx env skb => (rtwBrClientTx clk pl dhcpFlagBcast env skb s).adapter
  | .rx env skb => (nat25HandleFrame clk pl env skb s).adapter
  | .expire jiffies => nat25DbExpire clk jiffies s
  | .cleanup => nat25DbCleanup s
  | .brInit env => netdevBrInit env s
  | .pppoeTick => { s with pppoeConnectionInProgress := s.pppoeConnectionInProgress - 2 }

def brStep (s : Adapter w) (e : BrEvent w) : Option (Adapter w) :=
  if e.legal s.db.live then some (brApply clk pl dhcpFlagBcast s e) else none

theorem brStep_tx {env : TxEnv w} (orig : Skb) (s : Adapter w)
    (h : ∀ a ∈ env.mem, a ∉ s.db.live) :
    brStep clk pl dhcpFlagBcast s (.tx env orig) =
      some (rtwBrClientTx clk pl dhcpFlagBcast env orig s).adapter := if_pos h

/-- The shortcut is empty, or for a chained entry with its two addresses. -/
def ScdbOk (s : Adapter w) : Prop :=
  ∀ a ∈ s.scdbEntry, a ∈ s.db.live ∧ (s.db.entry a).networkAddr = ipv4NetworkAddr s.scdbIp ∧
    (s.db.entry a).macAddr = s.scdbMac

/-- A frame sent by the shortcut leaves the database as its insertion would. -/
def TxOk (env : TxEnv w) (orig : Skb) (s : Adapter w) : Prop :=
  txServed env orig s = true →
    (rtwBrClientTx clk pl dhcpFlagBcast env orig s).adapter.db =
      (nat25DbHandle clk pl .insert env.toEnv (untagged orig) s).adapter.db

/-- A frame received by the shortcut gets the destination that a lookup would give it. -/
def RxOk (env : Env w) (orig : Skb) (s : Adapter w) : Prop :=
  rxServed orig s = true →
    (nat25HandleFrame clk pl env orig s).skb.da =
      (nat25DbHandle clk pl .lookup env (untagged orig) s).skb.da

/-- The condition on the frames sent. An IP frame that is served is one whose source is inserted:
from the address of the shortcut with its IP address, or from another one that has the MAC address
of its entry. Another frame does not give the entry of the shortcut another MAC address. -/
def TxRegular (orig : Skb) (s : Adapter w) : Prop :=
  let skb := untagged orig
  if skb.protocol = ethPIp then
    if s.scdbMac ≠ skb.sa then
      ∀ a ∈ scdbFindEntry skb.sa (ipSaddr skb) s,
        insertKey skb s ≠ none ∧ (s.db.entry a).macAddr = skb.sa
    else
      ∀ _a ∈ s.scdbEntry, insertKey skb s ≠ none ∧ ipSaddr skb = s.scdbIp
  else
    ∀ a ∈ s.scdbEntry, insertKey skb s = some (s.db.entry a).networkAddr → skb.sa = s.scdbMac

/-- The condition on the frames received. A frame that is served is well formed, and there is an
entry, which has not expired. -/
def RxRegular (jiffies : BitVec w) (orig : Skb) (s : Adapter w) : Prop :=
  rxServed orig s = true → lookupKey (untagged orig) s ≠ none ∧
    ∃ a ∈ s.scdbEntry, hasExpired clk jiffies (s.db.entry a) = false

/-- The condition on the events. -/
def BrRegular (s : Adapter w) : BrEvent w → Prop
  | .tx _ skb => TxRegular skb s
  | .rx env skb => RxRegular clk env.jiffies skb s
  | _ => True

end

/-! ## Steps -/

variable {clk : Clock w} {pl : Payload} {dhcpFlagBcast : Skb → Skb} {env : TxEnv w} {orig : Skb}
  {s : Adapter w} {a : Addr} {b : Fin 16 → List Addr}

theorem of_fastEntry {brPort : Bool} (h : fastEntry brPort orig s = some a) :
    orig.protocol = ethPIp ∧ s.scdbMac = orig.sa ∧ s.scdbEntry = some a := by
  obtain ⟨⟨-, -, -, -, hip, hmac⟩, hentry⟩ := Option.ite_none_right_eq_some.mp h
  exact ⟨hip, hmac, hentry⟩

theorem untagged_of_ip (h : orig.protocol = ethPIp) : untagged orig = orig := by
  unfold untagged
  rw [if_neg]
  rw [h]
  decide

theorem learnBrIp_eq (skb : Skb) (s : Adapter w) :
    ∃ ip, learnBrIp skb s = { s with brIp := ip } := by
  unfold learnBrIp
  split
  · exact ⟨_, rfl⟩
  · exact ⟨_, rfl⟩

theorem tx_fast (h : fastEntry env.brPort orig s = some a) :
    (rtwBrClientTx clk pl dhcpFlagBcast env orig s).adapter = refreshEntry env.jiffies a s := by
  unfold rtwBrClientTx
  rw [h]
  rfl

/-- The state after the part of the slow path that is about the shortcut. -/
def txUpdated (env : TxEnv w) (orig : Skb) (s : Adapter w) : Adapter w × Bool :=
  scdbUpdate env.jiffies (untagged orig) (learnBrIp (untagged orig) s)

theorem tx_slow_served (h : fastEntry env.brPort orig s = none)
    (hserved : (txUpdated env orig s).2 = false) :
    (rtwBrClientTx clk pl dhcpFlagBcast env orig s).adapter = (txUpdated env orig s).1 := by
  unfold txUpdated at hserved ⊢
  unfold rtwBrClientTx
  rw [h]
  dsimp only
  rw [hserved, if_neg Bool.false_ne_true]
  rfl

/-- A frame from another MAC address than that of the shortcut, with the IP address of an entry,
sets the shortcut to this entry, whose MAC address it does not look at. -/
theorem tx_found (hip : orig.protocol = ethPIp) (hsa : s.scdbMac ≠ orig.sa)
    (hfind : s.db.find (ipv4NetworkAddr (ipSaddr orig)) = some a) :
    (rtwBrClientTx clk pl dhcpFlagBcast env orig s).adapter.scdbEntry = some a ∧
      (rtwBrClientTx clk pl dhcpFlagBcast env orig s).adapter.scdbMac = orig.sa ∧
      ((rtwBrClientTx clk pl dhcpFlagBcast env orig s).adapter.db.entry a).macAddr =
        (s.db.entry a).macAddr := by
  have hfast : fastEntry env.brPort orig s = none := by
    unfold fastEntry
    exact if_neg fun hall => hsa hall.2.2.2.2.2
  obtain ⟨ip, hlearn⟩ := learnBrIp_eq orig s
  have hupdated : txUpdated env orig s =
      (refreshEntry env.jiffies a { s with
        brIp := ip, scdbEntry := some a, scdbMac := orig.sa, scdbIp := ipSaddr orig }, false) := by
    unfold txUpdated scdbUpdate scdbFindEntry
    rw [untagged_of_ip hip, if_pos hip, hlearn, if_pos hsa]
    dsimp only
    rw [hfind]
  have hserved : (txUpdated env orig s).2 = false := by rw [hupdated]
  rw [tx_slow_served hfast hserved, hupdated]
  refine ⟨rfl, rfl, ?_⟩
  dsimp only [refreshEntry]
  rw [Db.entry_setEntry_self]

/-- A frame that is not served is inserted, if it is not dropped before. -/
theorem tx_inserted (h : fastEntry env.brPort orig s = none)
    (hserved : (txUpdated env orig s).2 = true) (hcopied : env.copied = true)
    (hlinear : env.linear = true) :
    (rtwBrClientTx clk pl dhcpFlagBcast env orig s).adapter =
      (nat25DbHandle clk pl .insert env.toEnv (untagged orig)
        (txUpdated env orig s).1).adapter := by
  unfold txUpdated at hserved ⊢
  unfold rtwBrClientTx
  rw [h]
  dsimp only
  rw [hserved, if_pos rfl, if_neg (by simp [hcopied]), if_neg (by simp [hlinear])]
  split_ifs <;> rfl

/-- A frame that is not served is inserted, unless it is dropped before. -/
theorem tx_slow (h : fastEntry env.brPort orig s = none)
    (hserved : (txUpdated env orig s).2 = true) :
    (rtwBrClientTx clk pl dhcpFlagBcast env orig s).adapter = (txUpdated env orig s).1 ∨
      (rtwBrClientTx clk pl dhcpFlagBcast env orig s).adapter =
        (nat25DbHandle clk pl .insert env.toEnv (untagged orig)
          (txUpdated env orig s).1).adapter := by
  unfold txUpdated at hserved ⊢
  unfold rtwBrClientTx
  rw [h]
  dsimp only
  rw [hserved, if_pos rfl]
  split_ifs
  · exact Or.inl rfl
  · exact Or.inl rfl
  · exact Or.inr rfl
  · exact Or.inr rfl
  · exact Or.inr rfl

/-- The database is well formed, and the shortcut agrees with it. -/
structure BrInv (s : Adapter w) : Prop where
  forms : ∃ b, s.db.Forms b
  scdb : ScdbOk s

variable {j : BitVec w} {skb : Skb}

/-- A change of a timer is none of the shortcut. -/
theorem BrInv.refreshEntry (h : BrInv s) (j : BitVec w) (a : Addr) :
    BrInv (refreshEntry j a s) := by
  obtain ⟨⟨b, hforms⟩, hscdb⟩ := h
  refine ⟨⟨b, hforms.setEntry a rfl⟩, fun x hx => ?_⟩
  obtain ⟨hlive, hna, hmac⟩ := hscdb x hx
  refine ⟨hlive, ?_⟩
  by_cases hxa : x = a
  · subst hxa
    dsimp only [Nat25.refreshEntry]
    rw [Db.entry_setEntry_self]
    exact ⟨hna, hmac⟩
  · dsimp only [Nat25.refreshEntry]
    rw [Db.entry_setEntry_of_ne _ _ hxa]
    exact ⟨hna, hmac⟩

/-- Changes of the database that keep the entry of the shortcut keep the invariant. -/
theorem BrInv.shed {t : Adapter w} (h : BrInv s) (hforms : t.db.Forms b) {gone : Entry w → Prop}
    (hshed : Db.Shed gone s.db t.db) (hscdb : ScdbShed s t) : BrInv t := by
  refine ⟨⟨b, hforms⟩, fun a ha => ?_⟩
  obtain ⟨hmac, hip, hentry, hlive⟩ | ⟨-, -, hentry⟩ := hscdb
  · rw [hentry] at ha
    obtain ⟨halive, hna, hamac⟩ := h.scdb a ha
    obtain ⟨n, hn⟩ := hshed.entry a (hlive a ha halive)
    rw [hn, hip, hmac]
    exact ⟨hlive a ha halive, hna, hamac⟩
  · rw [hentry] at ha
    exact nomatch ha

theorem SameScdb.scdbShed {t : Adapter w} (h : SameScdb s t)
    (hlive : ∀ a ∈ s.db.live, a ∈ t.db.live) : ScdbShed s t :=
  .kept h.scdbMac h.scdbIp h.scdbEntry fun a _ ha => hlive a ha

/-- An insertion keeps the invariant, if it does not give the entry of the shortcut another MAC
address. -/
theorem BrInv.insert {e : Env w} (h : BrInv s) (hlegal : ∀ a ∈ e.mem, a ∉ s.db.live)
    (hreg : ∀ a ∈ s.scdbEntry, insertKey skb s = some (s.db.entry a).networkAddr →
      skb.sa = s.scdbMac) :
    BrInv (nat25DbHandle clk pl .insert e skb s).adapter := by
  obtain ⟨⟨b, hforms⟩, hscdb⟩ := id h
  have hdb : (nat25DbHandle clk pl .insert e skb s).adapter.db =
      (insertKey skb s).elim s.db fun k => s.db.insert e.jiffies e.mem skb.sa k :=
    nat25DbHandle_insert
  have hsame : SameScdb s (nat25DbHandle clk pl .insert e skb s).adapter := nat25DbHandle_sameScdb
  cases hk : insertKey skb s with
  | none =>
    rw [hk, Option.elim_none] at hdb
    have hforms' : (nat25DbHandle clk pl .insert e skb s).adapter.db.Forms b := by rwa [hdb]
    have hshed : Db.Shed (fun _ => False) s.db
      (nat25DbHandle clk pl .insert e skb s).adapter.db := by
      rw [hdb]
      exact .refl _ _
    exact h.shed hforms' hshed (hsame.scdbShed fun a ha => by rwa [hdb])
  | some k =>
    rw [hk, Option.elim_some] at hdb
    obtain ⟨b', hforms'⟩ := hforms.insert skb.sa k e.jiffies hlegal
    refine ⟨⟨b', by rwa [hdb]⟩, fun a ha => ?_⟩
    rw [hsame.scdbEntry] at ha
    obtain ⟨hlive, hna, hmac⟩ := hscdb a ha
    rw [hdb, hsame.scdbIp, hsame.scdbMac]
    cases hfind : s.db.find k with
    | some x =>
      rw [Db.insert_of_find _ hfind]
      refine ⟨hlive, ?_⟩
      by_cases hxa : a = x
      · -- the entry of the shortcut is inserted again, from the address it has
        subst hxa
        have hxk := (hforms.find_eq_some.mp hfind).2
        have hsa := hreg a ha (by rw [hk, hxk])
        rw [Db.entry_setEntry_self]
        exact ⟨hna, hsa⟩
      · rw [Db.entry_setEntry_of_ne _ _ hxa]
        exact ⟨hna, hmac⟩
    | none =>
      cases hmem : e.mem with
      | none =>
        rw [Db.insert_of_null hfind]
        exact ⟨hlive, hna, hmac⟩
      | some x =>
        have hxa : a ≠ x := by
          rintro rfl
          exact hlegal a hmem hlive
        rw [Db.insert_of_mem hfind, Db.entry_linkNew_of_ne _ _ hxa]
        exact ⟨List.mem_cons_of_mem x hlive, hna, hmac⟩

/-- The part of the slow path that is about the shortcut keeps the invariant. If the frame is then
to be inserted, the shortcut is empty or the frame is no IP frame. -/
theorem BrInv.updated (h : BrInv s) (env : TxEnv w) (hreg : TxRegular orig s) :
    BrInv (txUpdated env orig s).1 ∧ (txUpdated env orig s).1.db.live = s.db.live ∧
      ((txUpdated env orig s).2 = true → (txUpdated env orig s).1.scdbEntry = none ∨
        (untagged orig).protocol ≠ ethPIp ∧ (txUpdated env orig s).1 = s) := by
  unfold TxRegular at hreg
  unfold txUpdated
  generalize untagged orig = skb at hreg ⊢
  by_cases hip : skb.protocol = ethPIp
  · rw [if_pos hip] at hreg
    obtain ⟨ip, hlearn⟩ := learnBrIp_eq skb s
    have h' : BrInv (learnBrIp skb s) := by
      rw [hlearn]
      exact ⟨h.forms, h.scdb⟩
    have hlive : (learnBrIp skb s).db.live = s.db.live := by rw [hlearn]
    have hmac : (learnBrIp skb s).scdbMac = s.scdbMac := by rw [hlearn]
    have hdb : (learnBrIp skb s).db = s.db := by rw [hlearn]
    rw [← hmac, scdbFindEntry, ← hdb] at hreg
    generalize learnBrIp skb s = t at h' hlive hreg
    unfold scdbUpdate scdbFindEntry
    rw [if_pos hip]
    by_cases hsa : t.scdbMac ≠ skb.sa
    · rw [if_pos hsa] at hreg ⊢
      cases hfind : t.db.find (ipv4NetworkAddr (ipSaddr skb)) with
      | none => exact ⟨⟨h'.forms, nofun⟩, hlive, fun _ => Or.inl rfl⟩
      | some a =>
        -- the shortcut is set to the entry that has been found
        obtain ⟨b, hforms⟩ := h'.forms
        obtain ⟨halive, hna⟩ := hforms.find_eq_some.mp hfind
        have hset : BrInv { t with
            scdbEntry := some a, scdbMac := skb.sa, scdbIp := ipSaddr skb } := by
          refine ⟨⟨b, hforms⟩, fun x hx => ?_⟩
          obtain rfl := Option.some.inj hx
          exact ⟨halive, hna, (hreg a hfind).2⟩
        exact ⟨hset.refreshEntry _ _, hlive, nofun⟩
    · rw [if_neg hsa]
      cases hentry : t.scdbEntry with
      | some a => exact ⟨h'.refreshEntry _ _, hlive, nofun⟩
      | none => exact ⟨⟨h'.forms, nofun⟩, hlive, fun _ => Or.inl rfl⟩
  · have hlearn : learnBrIp skb s = s := if_neg fun hboth => hip hboth.2
    unfold scdbUpdate
    rw [if_neg hip, hlearn]
    exact ⟨h, rfl, fun _ => Or.inr ⟨hip, rfl⟩⟩

/-- A frame sent keeps the invariant. -/
theorem BrInv.tx (h : BrInv s) (hlegal : ∀ a ∈ env.mem, a ∉ s.db.live) (hreg : TxRegular orig s) :
    BrInv (rtwBrClientTx clk pl dhcpFlagBcast env orig s).adapter := by
  cases hfast : fastEntry env.brPort orig s with
  | some a =>
    rw [tx_fast hfast]
    exact h.refreshEntry _ a
  | none =>
    obtain ⟨hupdated, hlive, hinserted⟩ := h.updated env hreg
    cases hdo : (txUpdated env orig s).2 with
    | false =>
      rw [tx_slow_served hfast hdo]
      exact hupdated
    | true =>
      have hslow : (rtwBrClientTx clk pl dhcpFlagBcast env orig s).adapter = _ ∨ _ :=
        tx_slow hfast hdo
      obtain heq | heq := hslow
      · rw [heq]
        exact hupdated
      · rw [heq]
        refine hupdated.insert (by rwa [hlive]) fun a ha hk => ?_
        obtain hnone | ⟨hip, hsame⟩ := hinserted hdo
        · rw [hnone] at ha
          exact nomatch ha
        · -- not an IP frame: this is what the condition is about
          rw [hsame] at ha hk ⊢
          unfold TxRegular at hreg
          rw [if_neg hip] at hreg
          exact hreg a ha hk

/-- The key of an IP frame whose source is inserted. -/
theorem insertKey_of_ip (hip : skb.protocol = ethPIp) (hk : insertKey skb s ≠ none) :
    insertKey skb s = some (ipv4NetworkAddr (ipSaddr skb)) := by
  unfold insertKey at hk ⊢
  rw [(packet_eq_ip skb).mpr hip] at hk ⊢
  dsimp only at hk ⊢
  split_ifs at hk ⊢
  · exact absurd rfl hk
  · rfl

/-- A frame from another MAC address than that of the shortcut, with an IP address that has no
entry, makes a new entry. -/
theorem tx_new (hip : orig.protocol = ethPIp) (hsa : s.scdbMac ≠ orig.sa)
    (hfind : s.db.find (ipv4NetworkAddr (ipSaddr orig)) = none) (hk : insertKey orig s ≠ none)
    (hmem : env.mem = some a) (hcopied : env.copied = true) (hlinear : env.linear = true) :
    (rtwBrClientTx clk pl dhcpFlagBcast env orig s).adapter.scdbMac = s.scdbMac ∧
      (rtwBrClientTx clk pl dhcpFlagBcast env orig s).adapter.db =
        s.db.linkNew a
          { useCount := 1
            macAddr := orig.sa
            ageingTimer := env.jiffies
            networkAddr := ipv4NetworkAddr (ipSaddr orig) } := by
  have hfast : fastEntry env.brPort orig s = none := by
    unfold fastEntry
    exact if_neg fun hall => hsa hall.2.2.2.2.2
  obtain ⟨ip, hlearn⟩ := learnBrIp_eq orig s
  have hupdated : txUpdated env orig s = ({ s with brIp := ip, scdbEntry := none }, true) := by
    unfold txUpdated scdbUpdate scdbFindEntry
    rw [untagged_of_ip hip, if_pos hip, hlearn, if_pos hsa]
    dsimp only
    rw [hfind]
  have hdo : (txUpdated env orig s).2 = true := by rw [hupdated]
  rw [tx_inserted hfast hdo hcopied hlinear, hupdated, untagged_of_ip hip]
  refine ⟨nat25DbHandle_sameScdb.scdbMac, ?_⟩
  have hkey : insertKey orig { s with brIp := ip, scdbEntry := none } = _ := insertKey_of_ip hip hk
  rw [nat25DbHandle_insert, hkey, Option.elim_some, hmem]
  exact Db.insert_of_mem hfind

/-- The insertion of a frame from the MAC address that its entry has sets the timer only. -/
theorem insert_eq_refresh {e : Env w} (hip : skb.protocol = ethPIp) (hk : insertKey skb s ≠ none)
    (hfind : s.db.find (ipv4NetworkAddr (ipSaddr skb)) = some a)
    (hmac : (s.db.entry a).macAddr = skb.sa) :
    (nat25DbHandle clk pl .insert e skb s).adapter.db =
      s.db.setEntry a { s.db.entry a with ageingTimer := e.jiffies } := by
  rw [nat25DbHandle_insert, insertKey_of_ip hip hk, Option.elim_some, Db.insert_of_find _ hfind,
    ← hmac]

/-- A frame sent by the shortcut leaves the database as its insertion would. -/
theorem BrInv.txOk (h : BrInv s) (hreg : TxRegular orig s) :
    TxOk clk pl dhcpFlagBcast env orig s := by
  intro hserved
  obtain ⟨⟨b, hforms⟩, hscdb⟩ := h
  unfold TxRegular at hreg
  cases hfast : fastEntry env.brPort orig s with
  | some a =>
    obtain ⟨hip, hsa, hentry⟩ := of_fastEntry hfast
    have huntagged := untagged_of_ip hip
    rw [tx_fast hfast, huntagged]
    rw [huntagged, if_pos hip, if_neg (not_not.mpr hsa)] at hreg
    obtain ⟨hk, hsaddr⟩ := hreg a hentry
    obtain ⟨hlive, hna, hmac⟩ := hscdb a hentry
    have hfind : s.db.find (ipv4NetworkAddr (ipSaddr orig)) = some a :=
      hforms.find_eq_some.mpr ⟨hlive, by rw [hna, hsaddr]⟩
    exact (insert_eq_refresh hip hk hfind (hmac.trans hsa)).symm
  | none =>
    have hdo : (txUpdated env orig s).2 = false := by
      rw [txServed, hfast, Option.isSome_none, Bool.false_or, Bool.not_eq_true'] at hserved
      exact hserved
    rw [tx_slow_served hfast hdo]
    unfold txUpdated at hdo ⊢
    generalize untagged orig = skb at hreg hdo ⊢
    obtain ⟨ip, hlearn⟩ := learnBrIp_eq skb s
    rw [hlearn] at hdo ⊢
    unfold scdbUpdate scdbFindEntry at hdo ⊢
    by_cases hip : skb.protocol = ethPIp
    · rw [if_pos hip] at hreg hdo ⊢
      by_cases hsa : s.scdbMac ≠ skb.sa
      · rw [if_pos hsa] at hreg hdo ⊢
        dsimp only at hdo ⊢
        cases hfind : s.db.find (ipv4NetworkAddr (ipSaddr skb)) with
        | none =>
          rw [hfind] at hdo
          exact nomatch hdo
        | some a =>
          obtain ⟨hk, hmac⟩ := hreg a hfind
          exact (insert_eq_refresh hip hk hfind hmac).symm
      · rw [if_neg hsa] at hreg hdo ⊢
        dsimp only at hdo ⊢
        cases hentry : s.scdbEntry with
        | none =>
          rw [hentry] at hdo
          exact nomatch hdo
        | some a =>
          obtain ⟨hk, hsaddr⟩ := hreg a hentry
          obtain ⟨hlive, hna, hmac⟩ := hscdb a hentry
          have hfind : s.db.find (ipv4NetworkAddr (ipSaddr skb)) = some a :=
            hforms.find_eq_some.mpr ⟨hlive, by rw [hna, hsaddr]⟩
          exact (insert_eq_refresh hip hk hfind (hmac.trans (not_not.mp hsa))).symm
    · rw [if_neg hip] at hdo
      exact nomatch hdo

theorem lookupKey_of_ip (hip : skb.protocol = ethPIp) (hk : lookupKey skb s ≠ none) :
    lookupKey skb s = some (ipv4NetworkAddr (ipDaddr skb)) := by
  unfold lookupKey at hk ⊢
  rw [(packet_eq_ip skb).mpr hip] at hk ⊢
  dsimp only at hk ⊢
  split_ifs at hk ⊢
  · exact absurd rfl hk
  · rfl

theorem da_retagged (orig skb : Skb) : (retagged orig skb).da = skb.da := by
  unfold retagged
  split
  · exact Skb.da_vlanPush skb _ _
  · rfl

theorem of_rxServed (h : rxServed orig s = true) :
    orig.da.isMcast = false ∧ s.ethBrExtInfo.nat25Disable = false ∧
      s.ethBrExtInfo.nat25scDisable = false ∧ (untagged orig).protocol = ethPIp ∧
        s.scdbIp = ipDaddr (untagged orig) := by
  simpa [rxServed, and_assoc] using h

/-- A lookup keeps the invariant. -/
theorem BrInv.lookup {e : Env w} (h : BrInv s) :
    BrInv (nat25DbHandle clk pl .lookup e skb s).adapter := by
  obtain ⟨b, hforms⟩ := h.forms
  have hdb : (nat25DbHandle clk pl .lookup e skb s).adapter.db = _ := nat25DbHandle_lookup
  have hsame : SameScdb s (nat25DbHandle clk pl .lookup e skb s).adapter := nat25DbHandle_sameScdb
  cases hk : lookupKey skb s with
  | none =>
    rw [hk, Option.elim_none] at hdb
    have hforms' : (nat25DbHandle clk pl .lookup e skb s).adapter.db.Forms b := by rwa [hdb]
    have hshed : Db.Shed (fun _ => False) s.db
      (nat25DbHandle clk pl .lookup e skb s).adapter.db := by
      rw [hdb]
      exact .refl _ _
    exact h.shed hforms' hshed (hsame.scdbShed fun a ha => by rwa [hdb])
  | some k =>
    rw [hk, Option.elim_some] at hdb
    obtain ⟨hforms', hshed⟩ := hforms.lookupAndReplace clk e.jiffies skb k
    rw [← hdb] at hforms' hshed
    refine h.shed hforms' hshed (hsame.scdbShed fun a ha => ?_)
    by_contra ha'
    exact hshed.gone a ha ha'

/-- A frame received keeps the invariant. -/
theorem BrInv.rx {e : Env w} (h : BrInv s) : BrInv (nat25HandleFrame clk pl e orig s).adapter := by
  unfold nat25HandleFrame
  split
  · exact h
  · dsimp only
    split_ifs
    · exact h
    · exact h.lookup
    · exact h.lookup
    · exact h

/-- A frame received by the shortcut gets the destination that a lookup would give it. -/
theorem BrInv.rxOk {e : Env w} (h : BrInv s) (hreg : RxRegular clk e.jiffies orig s) :
    RxOk clk pl e orig s := by
  intro hserved
  obtain ⟨hk, a, hentry, hexp⟩ := hreg hserved
  obtain ⟨hmcast, hnat25, hsc, hip, hdaddr⟩ := of_rxServed hserved
  obtain ⟨⟨b, hforms⟩, hscdb⟩ := h
  obtain ⟨hlive, hna, hmac⟩ := hscdb a hentry
  have hkey := lookupKey_of_ip hip hk
  have hfind : s.db.find (ipv4NetworkAddr (ipDaddr (untagged orig))) = some a :=
    hforms.find_eq_some.mpr ⟨hlive, by rw [hna, hdaddr]⟩
  have hlookup := Db.lookupAndReplace_of_fresh clk (untagged orig) hfind hexp
  -- both give it the MAC address of the entry
  have hda : (nat25DbHandle clk pl .lookup e (untagged orig) s).skb.da =
    (s.db.entry a).macAddr := by
    rw [nat25DbHandle_da hkey fun _ => congrArg (·.1) hlookup, hlookup]
    exact Skb.mac_setMac _ 0 _
  have hframe : (nat25HandleFrame clk pl e orig s).skb =
      retagged orig ((untagged orig).setMac 0 s.scdbMac) := by
    unfold nat25HandleFrame
    simp [hmcast, hnat25, hsc, hip, hdaddr]
  rw [hda, hmac, hframe, da_retagged]
  exact Skb.mac_setMac _ 0 _

/-! ## The shortcut in a run -/

theorem BrInv.step {e : BrEvent w} {t : Adapter w} (h : BrInv s) (hreg : BrRegular clk s e)
    (hstep : brStep clk pl dhcpFlagBcast s e = some t) : BrInv t := by
  obtain ⟨hlegal, ht⟩ := Option.ite_none_right_eq_some.mp hstep
  obtain rfl := Option.some.inj ht
  cases e with
  | tx env skb => exact h.tx hlegal hreg
  | rx env skb => exact h.rx
  | expire jiffies =>
    obtain ⟨b, hforms⟩ := h.forms
    obtain ⟨⟨b', hforms'⟩, hshed⟩ := hforms.expire clk jiffies
    exact h.shed hforms' hshed.db hshed.scdb
  | cleanup =>
    obtain ⟨b, hforms⟩ := h.forms
    obtain ⟨⟨b', hforms'⟩, hshed, -⟩ := hforms.cleanup
    exact h.shed hforms' hshed.db hshed.scdb
  | brInit env =>
    have heq : ∃ brMac info, netdevBrInit env s = { s with brMac := brMac, ethBrExtInfo := info } :=
      netdevBrInit_eq
    obtain ⟨brMac, info, heq⟩ := heq
    dsimp only [brApply]
    rw [heq]
    exact ⟨h.forms, h.scdb⟩
  | pppoeTick => exact ⟨h.forms, h.scdb⟩

/-- An adapter with an empty database and an empty shortcut. -/
def emptied (s : Adapter w) : Adapter w :=
  { s with
    db := { nethash := Chains.empty, entry := s.db.entry, live := [] }
    scdbMac := zeroMac
    scdbIp := zeroIp
    scdbEntry := none }

theorem BrInv.emptied (s : Adapter w) : BrInv (emptied s) :=
  { forms :=
      ⟨fun _ => [],
        { chained := .empty
          hashed := nofun
          unique := nofun
          mem_live := ⟨nofun, fun h => nomatch h.choose_spec⟩
          nodup := List.nodup_nil }⟩
    scdb := nofun }

/-- The shortcut agrees with the database. -/
theorem shortcut_run (clk : Clock w) (pl : Payload) (dhcpFlagBcast : Skb → Skb) (s : Adapter w)
    (es : List (BrEvent w)) {t : Adapter w}
    (hreg : Guarded (brStep clk pl dhcpFlagBcast) (BrRegular clk) (emptied s) es)
    (hrun : run (brStep clk pl dhcpFlagBcast) (emptied s) es = some t) :
    ScdbOk t ∧
      (∀ env orig, RxRegular clk env.jiffies orig t → RxOk clk pl env orig t) ∧
      ∀ env orig, TxRegular orig t → TxOk clk pl dhcpFlagBcast env orig t := by
  have hinv : BrInv t :=
    run_preserves BrInv (fun _ _ _ hs hok hstep => hs.step hok hstep) (.emptied s) hreg hrun
  exact ⟨hinv.scdb, fun env orig hok => hinv.rxOk hok, fun env orig hok => hinv.txOk hok⟩

/-! ### Two clients -/

/-- Nothing fails when a frame is sent. -/
def bridgedEnv (jiffies : BitVec 64) (mem : Option Addr) : TxEnv 64 :=
  { bridgedSys mem with jiffies := jiffies, copied := true, linear := true }

/-- An IP frame from the host `m` with the address `192.168.1.10`. -/
def frameOf (m daddr : Byte) : Skb := ipFrame (hostMac 9) (hostMac m) 10 daddr

/-- The host 5 sends a frame. -/
def hostSends : BrEvent 64 := .tx (bridgedEnv 0 (some 1)) (frameOf 5 20)

/-- The entry of the host 5. -/
def hostEntry : Entry 64 :=
  { useCount := 1
    macAddr := hostMac 5
    ageingTimer := 0
    networkAddr := ipv4NetworkAddr (ipSaddr (frameOf 5 20)) }

/-- The state after the first frame. -/
theorem exists_hostSends : ∃ t,
    brStep clock100 samePayload id (emptied bridgedAdapter) hostSends = some t ∧
      t.scdbMac = zeroMac ∧ t.db = (emptied bridgedAdapter).db.linkNew 1 hostEntry :=
  ⟨_, brStep_tx _ _ _ _ _ (fun _ _ => List.not_mem_nil),
    tx_new (by decide) (by decide) (by decide) (by decide) rfl rfl rfl⟩

/-- The entry is found in the state after the first frame. -/
theorem find_hostEntry {na : NetworkAddr} (hna : hostEntry.networkAddr = na) :
    ((emptied bridgedAdapter).db.linkNew 1 hostEntry).find na = some 1 := by
  obtain ⟨b, hforms⟩ := (BrInv.emptied bridgedAdapter).forms
  have hforms' := hforms.linkNew (a := 1) (e := hostEntry) List.not_mem_nil (by decide)
  rw [hforms'.find_eq_some, Db.entry_linkNew_self]
  exact ⟨List.mem_cons_self, hna⟩

/-- The host 5 sends again, which is served by the shortcut. -/
theorem shortcut_run_hostSends :
    ∃ t, run (brStep clock100 samePayload id) (emptied bridgedAdapter)
        [hostSends, .tx (bridgedEnv 1 none) (frameOf 5 30)] = some t ∧
      ScdbOk t ∧
        (∀ env orig, RxRegular clock100 env.jiffies orig t → RxOk clock100 samePayload env orig t) ∧
        ∀ env orig, TxRegular orig t → TxOk clock100 samePayload id env orig t := by
  obtain ⟨t, hsends, hscdbMac, hdb⟩ := exists_hostSends
  have hip : (frameOf 5 30).protocol = ethPIp := by decide
  have hstart : TxRegular (frameOf 5 20) (emptied bridgedAdapter) := by
    unfold TxRegular
    rw [untagged_of_ip (by decide), if_pos (by decide), if_pos (by decide)]
    exact fun a ha => nomatch (show none = some a from ha)
  have hagain : TxRegular (frameOf 5 30) t := by
    have hfind : scdbFindEntry (frameOf 5 30).sa (ipSaddr (frameOf 5 30)) t = some 1 := by
      unfold scdbFindEntry
      rw [hdb]
      exact find_hostEntry (by decide)
    unfold TxRegular
    rw [untagged_of_ip hip, if_pos hip, if_pos (by rw [hscdbMac]; decide), hfind, hdb]
    intro a ha
    obtain rfl := Option.some.inj ha
    rw [Db.entry_linkNew_self]
    refine ⟨?_, by decide⟩
    unfold insertKey
    rw [(packet_eq_ip _).mpr hip]
    dsimp only
    rw [if_neg (by decide)]
    exact Option.some_ne_none _
  have hstep := brStep_tx clock100 samePayload id (frameOf 5 30) t
    (fun a (ha : a ∈ (bridgedEnv 1 none).mem) => nomatch ha)
  have hreg : Guarded (brStep clock100 samePayload id) (BrRegular clock100) (emptied bridgedAdapter)
      [hostSends, .tx (bridgedEnv 1 none) (frameOf 5 30)] := by
    refine ⟨hstart, fun t' ht' => ?_⟩
    obtain rfl := Option.some.inj (hsends.symm.trans ht')
    exact ⟨hagain, fun _ _ => trivial⟩
  have hrun (t' : Adapter 64)
      (ht' : brStep clock100 samePayload id t (.tx (bridgedEnv 1 none) (frameOf 5 30)) = some t') :
      run (brStep clock100 samePayload id) (emptied bridgedAdapter)
        [hostSends, .tx (bridgedEnv 1 none) (frameOf 5 30)] = some t' := by
    rw [run_cons, hsends, Option.bind_some, run_cons, ht', Option.bind_some, run_nil]
  exact ⟨_, hrun _ hstep, shortcut_run clock100 samePayload id bridgedAdapter _ hreg (hrun _ hstep)⟩

/-- The shortcut has the MAC address of the host 6, but its entry still has that of the host 5. -/
theorem takeover_not_kept :
    ¬ ∀ es t, run (brStep clock100 samePayload id) (emptied bridgedAdapter) es = some t →
      ScdbOk t ∧ (∀ env orig, RxOk clock100 samePayload env orig t) ∧
        ∀ env orig, TxOk clock100 samePayload id env orig t := by
  intro hall
  obtain ⟨t, hsends, hscdbMac, hdb⟩ := exists_hostSends
  have hfind : t.db.find (ipv4NetworkAddr (ipSaddr (frameOf 6 20))) = some 1 := by
    rw [hdb]
    exact find_hostEntry (by decide)
  have hsa : t.scdbMac ≠ (frameOf 6 20).sa := by
    rw [hscdbMac]
    decide
  have hstep := brStep_tx clock100 samePayload id (frameOf 6 20) t
    (fun a (ha : a ∈ (bridgedEnv 2 none).mem) => nomatch ha)
  obtain ⟨hentry, hnew, hold⟩ := tx_found (by decide) hsa hfind
  have hrun (t' : Adapter 64)
      (ht' : brStep clock100 samePayload id t (.tx (bridgedEnv 2 none) (frameOf 6 20)) = some t') :
      run (brStep clock100 samePayload id) (emptied bridgedAdapter)
        [hostSends, .tx (bridgedEnv 2 none) (frameOf 6 20)] = some t' := by
    rw [run_cons, hsends, Option.bind_some, run_cons, ht', Option.bind_some, run_nil]
  have hsame := ((hall _ _ (hrun _ hstep)).1 1 hentry).2.2
  rw [hdb, Db.entry_linkNew_self] at hold
  exact absurd (hold.symm.trans (hsame.trans hnew)) (by decide)

end Rtl88x2cu.Nat25
