import Mathlib.Algebra.Order.Ring.Nat
import Mathlib.Data.FinEnum
import Rtl88x2cu.Lib.Run
import Rtl88x2cu.Nat25.Handle

/-!
# The age of an entry

Frames are handled, entries expire and the database is cleaned up, at times that do not decrease. A
`Trace` has beside the adapter the last insertion of each network address since the last cleanup,
which the code does not keep: `Inv` says how the entries and the insertions agree.

`ageing_run` says what holds in a run in which no IP frame is looked up for an entry that is expired
and still chained: a lookup then finds what was inserted in the last 300 seconds, and treats any
other frame as if its address were not in the database. For such an entry it does not, see
`expired_not_forgotten`.
-/

namespace Rtl88x2cu.Nat25

/-! ## Time -/

section

variable {w : ℕ} (clk : Clock w)

/-- The value of `jiffies` at a time. -/
def jiffiesAt (time : ℕ) : BitVec w := BitVec.ofNat w time

/-- The top bit of a small negative number is set. -/
theorem msb_neg_ofNat {e : ℕ} (hw : 0 < w) (he : 0 < e) (hle : e ≤ 2 ^ (w - 1)) :
    (-BitVec.ofNat w e).msb = true := by
  have hpow : 2 ^ w = 2 * 2 ^ (w - 1) := by
    rw [← Nat.pow_succ', Nat.succ_eq_add_one, Nat.sub_add_cancel hw]
  rw [BitVec.msb_eq_decide, BitVec.toNat_neg, BitVec.toNat_ofNat, decide_eq_true_iff, hpow,
    Nat.mod_eq_of_lt (a := e) (by omega), Nat.mod_eq_of_lt (by omega)]
  omega

/-- An entry has expired only when its age is the ageing time. -/
theorem ageingTime_le_of_hasExpired {e : Entry w} {time since : ℕ} (hsince : since ≤ time)
    (he : e.ageingTimer = jiffiesAt since) (hexp : hasExpired clk (jiffiesAt time) e = true) :
    clk.ageingTime ≤ time - since := by
  by_contra hyoung
  obtain ⟨d, rfl⟩ := Nat.exists_eq_add_of_le hsince
  rw [Nat.add_sub_cancel_left, not_le] at hyoung
  obtain ⟨r, hr⟩ := Nat.exists_eq_add_of_le hyoung.le
  have hle := clk.ageing_le
  -- the difference of the two times is minus the rest of the ageing time
  have hneg : jiffiesAt (since + d) - BitVec.ofNat w clk.ageingTime - jiffiesAt since =
      -BitVec.ofNat w r := by
    rw [hr, jiffiesAt, jiffiesAt, BitVec.ofNat_add, BitVec.ofNat_add]
    grind
  have hmsb : (-BitVec.ofNat w r).msb = true := by
    refine msb_neg_ofNat clk.bits_pos (by omega) (le_trans ?_ hle)
    unfold Clock.ageingTime at hr
    omega
  rw [hasExpired, timeBeforeEq, nat25Timeout, he, hneg, hmsb] at hexp
  exact nomatch hexp

end

/-! ## Traces -/

variable {w : ℕ}

/-- The adapter, the time, and the last insertion of each network address since the last cleanup:
its MAC address and its time. -/
structure Trace (w : ℕ) where
  adapter : Adapter w
  now : ℕ
  last : NetworkAddr → Option (EthAddr × ℕ)

/-- The operations. -/
inductive Op where
  | handle (method : Method) (sys : Sys) (skb : Skb)
  | expire
  | cleanup

/-- An operation at a time. -/
structure Event where
  time : ℕ
  op : Op

/-- The system at a time. -/
def Sys.at (sys : Sys) (time : ℕ) : Env w := { sys with jiffies := jiffiesAt time }

/-- `rtw_malloc` returns memory that is not in use. -/
def Op.legal (live : List Addr) : Op → Prop
  | .handle _ sys _ => ∀ a ∈ sys.mem, a ∉ live
  | .expire => True
  | .cleanup => True

instance Op.decidableLegal (live : List Addr) (op : Op) : Decidable (op.legal live) := by
  cases op <;> unfold Op.legal <;> infer_instance

namespace Trace

variable (clk : Clock w) (pl : Payload)

/-- The call for a frame. -/
def handled (t : Trace w) (time : ℕ) (method : Method) (sys : Sys) (skb : Skb) : Res w :=
  nat25DbHandle clk pl method (sys.at time) skb t.adapter

/-- What an operation does. -/
def apply (t : Trace w) (time : ℕ) : Op → Trace w
  | .handle method sys skb =>
    { adapter := (t.handled clk pl time method sys skb).adapter
      now := time
      last :=
        match method, insertKey skb t.adapter with
        | .insert, some k => Function.update t.last k (some (skb.sa, time))
        | _, _ => t.last }
  | .expire => { t with adapter := nat25DbExpire clk (jiffiesAt time) t.adapter, now := time }
  | .cleanup => { adapter := nat25DbCleanup t.adapter, now := time, last := fun _ => none }

/-- One operation; times do not decrease. -/
def step (t : Trace w) (e : Event) : Option (Trace w) :=
  if t.now ≤ e.time ∧ e.op.legal t.adapter.db.live then some (t.apply clk pl e.time e.op) else none

/-- At the start the database is empty; the rest of the adapter may be anything. -/
def init (s : Adapter w) (entry : Addr → Entry w) (time : ℕ) : Trace w :=
  { adapter := { s with db := { nethash := Chains.empty, entry := entry, live := [] } }
    now := time
    last := fun _ => none }

/-- The last insertion of `k` is not younger than the ageing time, or there is none. -/
def Old (t : Trace w) (k : NetworkAddr) (time : ℕ) : Prop :=
  ∀ mac since, t.last k = some (mac, since) → clk.ageingTime ≤ time - since

/-- The condition: there is memory for a new entry, and a lookup of an address whose last insertion
is old finds no entry for it, or finds it expired for a frame that is not an IP frame. -/
def Regular (t : Trace w) (e : Event) : Prop :=
  match e.op with
  | .handle .insert sys skb =>
    ∀ k, insertKey skb t.adapter = some k → t.adapter.db.find k = none → sys.mem ≠ none
  | .handle .lookup _ skb =>
    ∀ k a, lookupKey skb t.adapter = some k → t.adapter.db.find k = some a →
      t.Old clk k e.time →
        packet skb ≠ .ip ∧ hasExpired clk (jiffiesAt e.time) (t.adapter.db.entry a) = true
  | _ => True

instance (t : Trace w) (k : NetworkAddr) (time : ℕ) : Decidable (t.Old clk k time) :=
  decidable_of_iff (∀ p ∈ t.last k, clk.ageingTime ≤ time - p.2)
    ⟨fun h mac since hlast => h (mac, since) hlast, fun h p hlast => h p.1 p.2 hlast⟩

instance (t : Trace w) (e : Event) : Decidable (t.Regular clk e) :=
  match e with
  | ⟨_, .handle .insert sys skb⟩ =>
    inferInstanceAs (Decidable (∀ k ∈ insertKey skb t.adapter,
      t.adapter.db.find k = none → sys.mem ≠ none))
  | ⟨time, .handle .lookup _ skb⟩ =>
    decidable_of_iff (∀ k ∈ lookupKey skb t.adapter, ∀ a ∈ t.adapter.db.find k,
        t.Old clk k time →
          packet skb ≠ .ip ∧ hasExpired clk (jiffiesAt time) (t.adapter.db.entry a) = true)
      ⟨fun h k a hk ha => h k hk a ha, fun h k hk a ha => h k a hk ha⟩
  | ⟨_, .handle .check _ _⟩ => isTrue trivial
  | ⟨_, .expire⟩ => isTrue trivial
  | ⟨_, .cleanup⟩ => isTrue trivial

/-- What a lookup is to do: the destination is that of a young insertion, and otherwise the frame is
treated as with any database that has no entry for the address. -/
structure LookupOk (t : Trace w) (time : ℕ) (sys : Sys) (skb : Skb) (k : NetworkAddr) : Prop where
  young : ∀ mac since, t.last k = some (mac, since) → time - since < clk.ageingTime →
    (t.handled clk pl time .lookup sys skb).skb.da = mac
  old : t.Old clk k time → ∀ db : Db w, db.find k = none →
    Alike (t.handled clk pl time .lookup sys skb)
      (nat25DbHandle clk pl .lookup (sys.at time) skb { t.adapter with db := db })

/-- What expiry is to do: it keeps the entry of a young insertion. -/
def ExpiryOk (t : Trace w) (time : ℕ) : Prop :=
  ∀ k mac since, t.last k = some (mac, since) → time - since < clk.ageingTime →
    ∀ a, t.adapter.db.find k = some a →
      (nat25DbExpire clk (jiffiesAt time) t.adapter).db.find k = some a

/-- The entries agree with the insertions: an entry has the MAC address and the time of the last
insertion of its address, and an address whose entry is gone is old. -/
structure Agrees (t : Trace w) : Prop where
  entry : ∀ a ∈ t.adapter.db.live, ∃ since ≤ t.now,
    t.last (t.adapter.db.entry a).networkAddr = some ((t.adapter.db.entry a).macAddr, since) ∧
      (t.adapter.db.entry a).ageingTimer = jiffiesAt since
  gone : ∀ k, t.adapter.db.find k = none → t.Old clk k t.now

/-- The invariant of a run. -/
structure Inv (t : Trace w) : Prop where
  forms : ∃ b, t.adapter.db.Forms b
  agrees : t.Agrees clk

variable {clk pl} {t : Trace w} {e : Event} {k : NetworkAddr} {time : ℕ}

theorem Old.mono {time' : ℕ} (h : t.Old clk k time) (hle : time ≤ time') : t.Old clk k time' :=
  fun mac since hlast => (h mac since hlast).trans (Nat.sub_le_sub_right hle since)

/-- The entries agree with the insertions after some of them have been removed, each of them when it
was old. -/
theorem Agrees.shed (h : t.Agrees clk) {b b' : Fin 16 → List Addr} (hforms : t.adapter.db.Forms b)
    {t' : Trace w} (hforms' : t'.adapter.db.Forms b') {gone : Entry w → Prop}
    (hshed : Db.Shed gone t.adapter.db t'.adapter.db)
    (hgone : ∀ e since, gone e → since ≤ t'.now → e.ageingTimer = jiffiesAt since →
      clk.ageingTime ≤ t'.now - since)
    (hlast : t'.last = t.last) (hnow : t.now ≤ t'.now) : t'.Agrees clk := by
  constructor
  case entry =>
    intro a ha
    obtain ⟨n, hn⟩ := hshed.entry a ha
    obtain ⟨since, hsince, hl, htimer⟩ := h.entry a (hshed.sub a ha)
    rw [hn, hlast]
    exact ⟨since, hsince.trans hnow, hl, htimer⟩
  case gone =>
    intro k hnone mac since hk
    rw [hlast] at hk
    cases hfind : t.adapter.db.find k with
    | none => exact (h.gone k hfind).mono hnow mac since hk
    | some a =>
      -- the entry was there before, so it has been removed
      obtain ⟨ha, rfl⟩ := hforms.find_eq_some.mp hfind
      have ha' : a ∉ t'.adapter.db.live := fun ha' => by
        rw [(hshed.find_eq_some hforms hforms').mpr ⟨hfind, ha'⟩] at hnone
        exact nomatch hnone
      obtain ⟨since', hsince', hl, htimer⟩ := h.entry a ha
      obtain ⟨-, rfl⟩ := Prod.mk.inj (Option.some.inj (hk.symm.trans hl))
      exact hgone _ _ (hshed.gone a ha ha') (hsince'.trans hnow) htimer

/-- The entries agree with the insertions after one more. -/
theorem Agrees.inserted (h : t.Agrees clk) {b b' : Fin 16 → List Addr}
    (hforms : t.adapter.db.Forms b) {t' : Trace w} (hforms' : t'.adapter.db.Forms b')
    {mac : EthAddr} {a : Addr}
    (hins : Db.Inserted (jiffiesAt t'.now) mac k a t.adapter.db t'.adapter.db)
    (hlast : t'.last = Function.update t.last k (some (mac, t'.now))) (hnow : t.now ≤ t'.now) :
    t'.Agrees clk := by
  constructor
  case entry =>
    intro x hx
    by_cases hxa : x = a
    · subst hxa
      refine ⟨t'.now, le_rfl, ?_, hins.ageingTimer⟩
      rw [hins.networkAddr, hins.macAddr, hlast, Function.update_self]
    · have hx' := (hins.mem_live.mp hx).resolve_left hxa
      have hne : (t.adapter.db.entry x).networkAddr ≠ k := fun hk => hxa ((hins.only hx').mp hk)
      obtain ⟨since, hsince, hl, htimer⟩ := h.entry x hx'
      rw [hins.other hxa, hlast, Function.update_of_ne hne]
      exact ⟨since, hsince.trans hnow, hl, htimer⟩
  case gone =>
    intro k' hnone
    have hne : k' ≠ k := by
      rintro rfl
      exact hforms'.find_eq_none.mp hnone a (hins.mem_live.mpr (Or.inl rfl)) hins.networkAddr
    have hnone' : t.adapter.db.find k' = none := by
      refine hforms.find_eq_none.mpr fun x hx hk => ?_
      have hxa : x ≠ a := by
        rintro rfl
        exact hne (hk.symm.trans ((hins.only hx).mpr rfl))
      refine hforms'.find_eq_none.mp hnone x (hins.mem_live.mpr (Or.inr hx)) ?_
      rwa [hins.other hxa]
    intro mac' since hk
    rw [hlast, Function.update_of_ne hne] at hk
    exact (h.gone k' hnone').mono hnow mac' since hk

theorem adapter_apply_expire (clk : Clock w) (pl : Payload) (t : Trace w) (time : ℕ) :
    (t.apply clk pl time .expire).adapter = nat25DbExpire clk (jiffiesAt time) t.adapter := rfl

theorem adapter_apply_cleanup (clk : Clock w) (pl : Payload) (t : Trace w) (time : ℕ) :
    (t.apply clk pl time .cleanup).adapter = nat25DbCleanup t.adapter := rfl

theorem db_apply_insert (clk : Clock w) (pl : Payload) (t : Trace w) (time : ℕ) (sys : Sys)
    (skb : Skb) :
    (t.apply clk pl time (.handle .insert sys skb)).adapter.db =
      (insertKey skb t.adapter).elim t.adapter.db fun k =>
        t.adapter.db.insert (jiffiesAt time) sys.mem skb.sa k := nat25DbHandle_insert

theorem db_apply_lookup (sys : Sys) (skb : Skb) :
    (t.apply clk pl time (.handle .lookup sys skb)).adapter.db =
      (lookupKey skb t.adapter).elim t.adapter.db fun k =>
        (t.adapter.db.lookupAndReplace clk (jiffiesAt time) skb k).2.2 := nat25DbHandle_lookup

/-- An operation that takes nothing out of the database and puts nothing in keeps the invariant. -/
theorem Inv.of_shed (h : t.Inv clk) {t' : Trace w} {b : Fin 16 → List Addr}
    (hforms : t'.adapter.db.Forms b)
    (hshed : Db.Shed (fun _ => False) t.adapter.db t'.adapter.db)
    (hlast : t'.last = t.last) (hnow : t.now ≤ t'.now) : t'.Inv clk := by
  obtain ⟨⟨b₀, hforms₀⟩, hagrees⟩ := h
  exact ⟨⟨b, hforms⟩, hagrees.shed hforms₀ hforms hshed (fun _ _ hgone => hgone.elim) hlast hnow⟩

theorem Inv.insert (h : t.Inv clk) (hnow : t.now ≤ time) {sys : Sys} {skb : Skb}
    (hlegal : ∀ a ∈ sys.mem, a ∉ t.adapter.db.live)
    (hreg : t.Regular clk ⟨time, .handle .insert sys skb⟩) :
    (t.apply clk pl time (.handle .insert sys skb)).Inv clk := by
  obtain ⟨⟨b, hforms⟩, hagrees⟩ := id h
  have hdb := t.db_apply_insert clk pl time sys skb
  cases hk : insertKey skb t.adapter with
  | none =>
    rw [hk, Option.elim_none] at hdb
    have hlast : (t.apply clk pl time (.handle .insert sys skb)).last = t.last := by
      simp only [Trace.apply, hk]
    refine h.of_shed (b := b) ?_ ?_ hlast hnow
    · rw [hdb]
      exact hforms
    · rw [hdb]
      exact .refl _ _
  | some k =>
    rw [hk, Option.elim_some] at hdb
    have hlast : (t.apply clk pl time (.handle .insert sys skb)).last =
        Function.update t.last k (some (skb.sa, time)) := by
      simp only [Trace.apply, hk]
    obtain ⟨b', hforms'⟩ := hforms.insert skb.sa k (jiffiesAt time) hlegal
    obtain ⟨a, hins⟩ := hforms.inserted skb.sa k (jiffiesAt time) hlegal (hreg k hk)
    rw [← hdb] at hforms' hins
    exact ⟨⟨b', hforms'⟩, hagrees.inserted hforms hforms' hins hlast hnow⟩

/-- An operation keeps the invariant. -/
theorem Inv.apply (h : t.Inv clk) {op : Op} (hnow : t.now ≤ time)
    (hlegal : op.legal t.adapter.db.live) (hreg : t.Regular clk ⟨time, op⟩) :
    (t.apply clk pl time op).Inv clk := by
  obtain ⟨⟨b, hforms⟩, hagrees⟩ := id h
  cases op with
  | handle method sys skb =>
    cases method with
    | check =>
      have hadapter : (t.apply clk pl time (.handle .check sys skb)).adapter = t.adapter :=
        nat25DbHandle_check
      refine h.of_shed (b := b) ?_ ?_ rfl hnow
      · rw [hadapter]
        exact hforms
      · rw [hadapter]
        exact .refl _ _
    | insert => exact h.insert hnow hlegal hreg
    | lookup =>
      -- no more than a use count changes
      have hshed : (t.apply clk pl time (.handle .lookup sys skb)).adapter.db.Forms b ∧
          Db.Shed (fun _ => False) t.adapter.db
            (t.apply clk pl time (.handle .lookup sys skb)).adapter.db := by
        rw [db_apply_lookup]
        cases lookupKey skb t.adapter with
        | none => exact ⟨hforms, .refl _ _⟩
        | some k => exact hforms.lookupAndReplace clk (jiffiesAt time) skb k
      exact h.of_shed hshed.1 hshed.2 rfl hnow
  | expire =>
    obtain ⟨⟨b', hforms'⟩, hshed⟩ := hforms.expire clk (jiffiesAt time)
    rw [← adapter_apply_expire clk pl] at hforms' hshed
    refine ⟨⟨b', hforms'⟩, hagrees.shed hforms hforms' hshed.db ?_ rfl hnow⟩
    exact fun e since hexp hsince htimer => ageingTime_le_of_hasExpired clk hsince htimer hexp
  | cleanup =>
    obtain ⟨⟨b', hforms'⟩, -, hempty⟩ := hforms.cleanup
    rw [← adapter_apply_cleanup clk pl t time] at hforms' hempty
    refine ⟨⟨b', hforms'⟩, fun a ha => ?_, fun k hnone mac since hk => nomatch hk⟩
    rw [hempty] at ha
    exact nomatch ha

theorem Inv.init (s : Adapter w) (entry : Addr → Entry w) (time : ℕ) :
    (Trace.init s entry time).Inv clk :=
  { forms :=
      ⟨fun _ => [],
        { chained := .empty
          hashed := nofun
          unique := nofun
          mem_live := ⟨nofun, fun h => nomatch h.choose_spec⟩
          nodup := List.nodup_nil }⟩
    agrees := ⟨nofun, nofun⟩ }

/-- The invariant holds throughout a run. -/
theorem Inv.run {t₀ : Trace w} {es : List Event} (h : t₀.Inv clk)
    (hreg : Guarded (step clk pl) (Regular clk) t₀ es) (hrun : run (step clk pl) t₀ es = some t) :
    t.Inv clk := by
  refine run_preserves (Trace.Inv clk) (fun t e t' hinv hreg hstep => ?_) h hreg hrun
  obtain ⟨⟨hnow, hlegal⟩, ht'⟩ := Option.ite_none_right_eq_some.mp hstep
  obtain rfl := Option.some.inj ht'
  exact hinv.apply hnow hlegal hreg

/-- The entry of a young insertion is there, with its MAC address, and it has not expired. -/
theorem Inv.find_of_young (h : t.Inv clk) (hnow : t.now ≤ time) {mac : EthAddr} {since : ℕ}
    (hlast : t.last k = some (mac, since)) (hyoung : time - since < clk.ageingTime) :
    ∃ a, t.adapter.db.find k = some a ∧ (t.adapter.db.entry a).macAddr = mac ∧
      hasExpired clk (jiffiesAt time) (t.adapter.db.entry a) = false := by
  obtain ⟨⟨b, hforms⟩, hagrees⟩ := h
  cases hfind : t.adapter.db.find k with
  | none =>
    have hold := (hagrees.gone k hfind).mono hnow mac since hlast
    exact absurd hyoung (not_lt_of_ge hold)
  | some a =>
    obtain ⟨ha, rfl⟩ := hforms.find_eq_some.mp hfind
    obtain ⟨since', hsince', hl, htimer⟩ := hagrees.entry a ha
    obtain ⟨rfl, rfl⟩ := Prod.mk.inj (Option.some.inj (hlast.symm.trans hl))
    refine ⟨a, rfl, rfl, Bool.eq_false_iff.mpr fun hexp => ?_⟩
    have hold := ageingTime_le_of_hasExpired clk (hsince'.trans hnow) htimer hexp
    exact absurd hyoung (not_lt_of_ge hold)

theorem Inv.expiryOk (h : t.Inv clk) (hnow : t.now ≤ time) : t.ExpiryOk clk time := by
  intro k mac since hlast hyoung a hfind
  obtain ⟨a', hfind', -, hexp⟩ := h.find_of_young hnow hlast hyoung
  obtain rfl := Option.some.inj (hfind.symm.trans hfind')
  obtain ⟨b, hforms⟩ := h.forms
  obtain ⟨⟨b', hforms'⟩, hshed⟩ := hforms.expire clk (jiffiesAt time)
  refine (hshed.db.find_eq_some hforms hforms').mpr ⟨hfind, ?_⟩
  by_contra ha
  have hgone := hshed.db.gone a (hforms.find_eq_some.mp hfind).1 ha
  rw [hexp] at hgone
  exact nomatch hgone

theorem Inv.lookupOk (h : t.Inv clk) (hnow : t.now ≤ time) {sys : Sys} {skb : Skb}
    (hreg : t.Regular clk ⟨time, .handle .lookup sys skb⟩)
    (hk : lookupKey skb t.adapter = some k) : t.LookupOk clk pl time sys skb k := by
  constructor
  case young =>
    intro mac since hlast hyoung
    obtain ⟨a, hfind, rfl, hexp⟩ := h.find_of_young hnow hlast hyoung
    have hlookup := Db.lookupAndReplace_of_fresh clk skb hfind hexp
    have hda : (t.handled clk pl time .lookup sys skb).skb.da =
        (t.adapter.db.lookupAndReplace clk (jiffiesAt time) skb k).2.1.da :=
      nat25DbHandle_da hk fun _ => congrArg (·.1) hlookup
    rw [hda, hlookup]
    exact Skb.mac_setMac skb 0 _
  case old =>
    intro hold db hnone
    have habsent := Db.lookupAndReplace_of_none clk (jiffiesAt time) skb hnone
    cases hfind : t.adapter.db.find k with
    | none =>
      have hlookup := Db.lookupAndReplace_of_none clk (jiffiesAt time) skb hfind
      refine nat25DbHandle_alike hk ?_ fun _ => ?_
      · exact (congrArg (·.2.1) habsent).trans (congrArg (·.2.1) hlookup).symm
      · exact (congrArg (·.1) habsent).trans (congrArg (·.1) hlookup).symm
    | some a =>
      -- an expired entry is found, but the frame is left as it is
      obtain ⟨hip, hexp⟩ := hreg k a hk hfind hold
      have hlookup := Db.lookupAndReplace_of_expired clk skb hfind hexp
      refine nat25DbHandle_alike hk ?_ fun hip' => absurd hip' hip
      exact (congrArg (·.2.1) habsent).trans (congrArg (·.2.1) hlookup).symm

end Trace

/-- The database in a run: its form, what expiry keeps, and what a lookup does with a frame. -/
theorem ageing_run (clk : Clock w) (pl : Payload) (s : Adapter w) (entry : Addr → Entry w)
    (start : ℕ) (es : List Event) {t : Trace w}
    (hreg : Guarded (Trace.step clk pl) (Trace.Regular clk) (Trace.init s entry start) es)
    (hrun : run (Trace.step clk pl) (Trace.init s entry start) es = some t) :
    (∃ b, t.adapter.db.Forms b) ∧
      (∀ time, t.now ≤ time → t.ExpiryOk clk time) ∧
      ∀ time sys skb k, t.now ≤ time → t.Regular clk ⟨time, .handle .lookup sys skb⟩ →
        lookupKey skb t.adapter = some k → t.LookupOk clk pl time sys skb k := by
  have hinv := (Trace.Inv.init s entry start).run hreg hrun
  exact ⟨hinv.forms, fun time hnow => hinv.expiryOk hnow,
    fun time sys skb k hnow hreg hk => hinv.lookupOk hnow hreg hk⟩

/-! ### A client that has been silent -/

/-- The state at the start. -/
def traceStart : Trace 64 := Trace.init bridgedAdapter bridgedAdapter.db.entry 0

/-- The client, which is the host 5, sends a frame at the start. -/
def clientSends : Event :=
  { time := 0, op := .handle .insert (bridgedSys (some 1)) (ipFrame (hostMac 1) (hostMac 5) 10 20) }

/-- A frame comes for the client. -/
def frameForClient : Skb := ipFrame (hostMac 1) (hostMac 1) 20 10

/-- The state after the frame of the client. -/
def traceSent : Trace 64 := traceStart.apply clock100 samePayload 0 clientSends.op

theorem step_clientSends : Trace.step clock100 samePayload traceStart clientSends =
    some traceSent :=
  if_pos ⟨le_rfl, fun _ _ => List.not_mem_nil⟩

theorem last_traceSent :
    traceSent.last (ipv4NetworkAddr (ipDaddr frameForClient)) = some (hostMac 5, 0) := by
  decide +kernel

/-- The frame at 300 seconds finds the expired entry, and is not passed to the bridge as it would be
if the client had never sent. -/
theorem expired_not_forgotten :
    ¬ ∀ es t, run (Trace.step clock100 samePayload) traceStart es = some t →
      ∀ time sys skb k, t.now ≤ time → lookupKey skb t.adapter = some k →
        t.LookupOk clock100 samePayload time sys skb k := by
  intro hall
  have hrun : run (Trace.step clock100 samePayload) traceStart [clientSends] = some traceSent := by
    rw [run_cons, step_clientSends, Option.bind_some, run_nil]
  have hok := hall _ _ hrun 30000 (bridgedSys none) frameForClient
    (ipv4NetworkAddr (ipDaddr frameForClient)) (by decide) rfl
  have hold : traceSent.Old clock100 (ipv4NetworkAddr (ipDaddr frameForClient)) 30000 := by
    intro mac since hlast
    obtain ⟨-, rfl⟩ := Prod.mk.inj (Option.some.inj (last_traceSent.symm.trans hlast))
    decide
  have halike := hok.old hold bridgedAdapter.db rfl
  -- the last octet of the destination tells the interface from the bridge
  have hdata := congrFun (congrArg Skb.data halike.skb) 5
  exact absurd hdata (by decide +kernel)

/-- The frame comes at 200 seconds. -/
def frameInTime : Event := ⟨20000, .handle .lookup (bridgedSys none) frameForClient⟩

theorem ageing_run_client :
    ∃ t, run (Trace.step clock100 samePayload) traceStart [clientSends, frameInTime] = some t ∧
      (∃ b, t.adapter.db.Forms b) ∧
        (∀ time, t.now ≤ time → t.ExpiryOk clock100 time) ∧
        ∀ time sys skb k, t.now ≤ time → t.Regular clock100 ⟨time, .handle .lookup sys skb⟩ →
          lookupKey skb t.adapter = some k → t.LookupOk clock100 samePayload time sys skb k := by
  have hstep : Trace.step clock100 samePayload traceSent frameInTime =
      some (traceSent.apply clock100 samePayload 20000 frameInTime.op) :=
    if_pos ⟨Nat.zero_le _, fun _ ha => nomatch ha⟩
  have hrun : run (Trace.step clock100 samePayload) traceStart [clientSends, frameInTime] =
      some (traceSent.apply clock100 samePayload 20000 frameInTime.op) := by
    rw [run_cons, step_clientSends, Option.bind_some, run_cons, hstep, Option.bind_some, run_nil]
  have hreg : Guarded (Trace.step clock100 samePayload) (Trace.Regular clock100) traceStart
      [clientSends, frameInTime] := by
    refine ⟨fun _ _ _ => Option.some_ne_none 1, fun t ht => ?_⟩
    obtain rfl := Option.some.inj (step_clientSends.symm.trans ht)
    refine ⟨fun k a hk _ hold => ?_, fun _ _ => trivial⟩
    -- the last insertion is young
    have hkey : lookupKey frameForClient traceSent.adapter =
        some (ipv4NetworkAddr (ipDaddr frameForClient)) := rfl
    obtain rfl := Option.some.inj (hkey.symm.trans hk)
    exact absurd (hold _ _ last_traceSent) (by decide)
  exact ⟨_, hrun,
    ageing_run clock100 samePayload bridgedAdapter bridgedAdapter.db.entry 0 _ hreg hrun⟩

end Rtl88x2cu.Nat25
