import Mathlib.Algebra.Order.Ring.Nat
import Rtl88x2cu.EthAddr
import Rtl88x2cu.Lib.Buckets
import Rtl88x2cu.Lib.Run

/-!
# The station objects of the core layer

The `NUM_STA` station objects of an interface are in the free queue or, once a station is known, in
one of the hash chains (`core/rtw_sta_mgt.c`). `asoc_sta_count` counts the stations in the chains.
A group address stands for the broadcast station.

`staOk_run` is the law of the tables over all runs. What a station is set up with and what is freed
with it is left out.
-/

namespace Rtl88x2cu.Core

/-! ## Model -/

/-- `NUM_STA`. -/
def numSta : ℕ := 32

/-- The broadcast address. -/
def bcAddr : EthAddr := ⟨0xff, 0xff, 0xff, 0xff, 0xff, 0xff⟩

/-- `wifi_mac_hash`. -/
def wifiMacHash (mac : EthAddr) : ℕ :=
  let x : BitVec 32 := mac.o0.setWidth 32
  let x := (x <<< 2) ^^^ mac.o1.setWidth 32
  let x := (x <<< 2) ^^^ mac.o2.setWidth 32
  let x := (x <<< 2) ^^^ mac.o3.setWidth 32
  let x := (x <<< 2) ^^^ mac.o4.setWidth 32
  let x := (x <<< 2) ^^^ mac.o5.setWidth 32
  let x := x ^^^ (x >>> 8)
  (x &&& BitVec.ofNat 32 (numSta - 1)).toNat

/-- `struct sta_priv`, with the addresses of the station objects. -/
structure StaPriv where
  freeStaQueue : List ℕ
  staHash : ℕ → List ℕ
  asocStaCount : ℤ
  macAddr : ℕ → EthAddr

/-- `_rtw_init_sta_priv`. -/
def rtwInitStaPriv : StaPriv where
  freeStaQueue := List.range numSta
  staHash := fun _ => []
  asocStaCount := 0
  macAddr := fun _ => ⟨0, 0, 0, 0, 0, 0⟩

/-- The address that a lookup of `hwaddr` searches for. -/
def lookupAddr (hwaddr : EthAddr) : EthAddr := if hwaddr.isMcast then bcAddr else hwaddr

/-- `rtw_get_stainfo`. -/
def rtwGetStainfo (s : StaPriv) (hwaddr : EthAddr) : Option ℕ :=
  (s.staHash (wifiMacHash (lookupAddr hwaddr))).find? fun psta =>
    s.macAddr psta = lookupAddr hwaddr

/-- `rtw_get_bcmc_stainfo`. -/
def rtwGetBcmcStainfo (s : StaPriv) : Option ℕ := rtwGetStainfo s bcAddr

/-- `rtw_alloc_stainfo`. -/
def rtwAllocStainfo (s : StaPriv) (hwaddr : EthAddr) : Option ℕ × StaPriv :=
  match s.freeStaQueue with
  | [] => (none, s)
  | psta :: queue =>
    let s := { s with
      freeStaQueue := queue
      macAddr := Function.update s.macAddr psta hwaddr }
    let index := wifiMacHash hwaddr
    if index ≥ numSta then (none, s)
    else
      (some psta, { s with
        staHash := Function.update s.staHash index (s.staHash index ++ [psta])
        asocStaCount := s.asocStaCount + 1 })

/-- `rtw_list_delete` of the `hash_list` of a station, which may be in a chain or in none. -/
def hashDelete (s : StaPriv) (psta : ℕ) : StaPriv :=
  { s with staHash := fun index => (s.staHash index).erase psta }

/-- `rtw_free_stainfo`. -/
def rtwFreeStainfo (s : StaPriv) (psta : ℕ) : StaPriv :=
  let s := hashDelete s psta
  let s := { s with asocStaCount := s.asocStaCount - 1 }
  { s with freeStaQueue := s.freeStaQueue ++ [psta] }

/-- An offset kept in a `char`. -/
def toChar (offset : ℕ) : ℤ := (BitVec.ofNat 8 offset).toInt

/-- One turn of the inner loop of `rtw_free_all_stainfo`: the station is unlinked, and its offset is
put into `free_sta_list`. -/
def collect (pbcmc : Option ℕ) (acc : StaPriv × List ℤ) (psta : ℕ) : StaPriv × List ℤ :=
  if pbcmc ≠ some psta then
    (hashDelete acc.1 psta, if psta < numSta then acc.2 ++ [toChar psta] else acc.2)
  else acc

/-- `rtw_free_all_stainfo`. -/
def rtwFreeAllStainfo (s : StaPriv) : StaPriv :=
  if s.asocStaCount = 1 then s
  else
    let pbcmc := rtwGetBcmcStainfo s
    let acc := (List.range numSta).foldl
      (fun acc index => (acc.1.staHash index).foldl (collect pbcmc) acc) (s, [])
    acc.2.foldl (fun s offset => rtwFreeStainfo s offset.toNat) acc.1

/-- The stations in the chains. -/
def StaPriv.live (s : StaPriv) : List ℕ := contents numSta s.staHash

inductive StaOp where
  | alloc (hwaddr : EthAddr)
  | free (psta : ℕ)
  | freeAll

/-- An address is only given to a station when no station is found for it, and only live stations
are freed. -/
def staStep (s : StaPriv) : StaOp → Option StaPriv
  | .alloc hwaddr =>
      if rtwGetStainfo s hwaddr = none then some (rtwAllocStainfo s hwaddr).2 else none
  | .free psta => if psta ∈ s.live then some (rtwFreeStainfo s psta) else none
  | .freeAll => some (rtwFreeAllStainfo s)

/-! ## The invariant -/

/-- An address that can be looked up: it is no group address but the broadcast address. -/
def IsKey (a : EthAddr) : Prop := lookupAddr a = a

/-- The invariant, with the stations `pending` that are neither in the free queue nor in a chain. -/
structure StaInv (s : StaPriv) (pending : List ℕ) : Prop where
  parts : (s.freeStaQueue ++ (s.live ++ pending)).Perm (List.range numSta)
  count : s.asocStaCount = s.live.length + pending.length
  bucket : ∀ b < numSta, ∀ psta ∈ s.staHash b, wifiMacHash (s.macAddr psta) = b
  unique : ∀ p ∈ s.live, ∀ q ∈ s.live, IsKey (s.macAddr p) → s.macAddr p = s.macAddr q → p = q

variable {s : StaPriv} {pending : List ℕ}

theorem wifiMacHash_lt (mac : EthAddr) : wifiMacHash mac < numSta := by
  unfold wifiMacHash
  rw [BitVec.toNat_and]
  exact Nat.lt_of_le_of_lt Nat.and_le_right (by decide)

theorem isKey_lookupAddr (a : EthAddr) : IsKey (lookupAddr a) := by
  have hbc : bcAddr.isMcast = true := rfl
  by_cases hm : a.isMcast = true
  · simp [IsKey, lookupAddr, hm, hbc]
  · simp [IsKey, lookupAddr, hm]

theorem StaInv.nodup_append (h : StaInv s pending) :
    (s.freeStaQueue ++ (s.live ++ pending)).Nodup :=
  h.parts.nodup_iff.mpr List.nodup_range

theorem StaInv.nodup_live (h : StaInv s pending) : s.live.Nodup :=
  (List.nodup_append.mp (List.nodup_append.mp h.nodup_append).2.1).1

theorem rtwInitStaPriv_inv : StaInv rtwInitStaPriv [] where
  parts := by
    have hlive : rtwInitStaPriv.live = [] := contents_empty numSta
    rw [hlive]
    simp [rtwInitStaPriv]
  count := by decide
  bucket _ _ _ hp := by cases hp
  unique p hp := by
    have hlive : rtwInitStaPriv.live = [] := contents_empty numSta
    rw [hlive] at hp
    cases hp

/-- A lookup finds the station of the address in the chain it hashes to. -/
theorem find_some {a : EthAddr} {psta : ℕ}
    (hfind : rtwGetStainfo s a = some psta) :
    psta ∈ s.live ∧ s.macAddr psta = lookupAddr a := by
  have haddr := List.find?_some hfind
  have hmem := List.mem_of_find?_eq_some hfind
  refine ⟨mem_contents.mpr ⟨_, wifiMacHash_lt _, hmem⟩, ?_⟩
  simpa using haddr

theorem StaInv.find_none (h : StaInv s pending) {a : EthAddr}
    (hfind : rtwGetStainfo s a = none) {q : ℕ} (hq : q ∈ s.live) :
    s.macAddr q ≠ lookupAddr a := by
  intro haddr
  obtain ⟨b, hb, hqb⟩ := mem_contents.mp hq
  -- a station of this address would be in the chain that is searched
  have hbucket := h.bucket b hb q hqb
  rw [haddr] at hbucket
  rw [← hbucket] at hqb
  simpa [haddr] using List.find?_eq_none.mp hfind q hqb

/-! ## Steps -/

/-- A station is taken from the free queue for an address without one. -/
theorem StaInv.alloc (h : StaInv s []) {hwaddr : EthAddr} (hnew : rtwGetStainfo s hwaddr = none) :
    StaInv (rtwAllocStainfo s hwaddr).2 [] := by
  unfold rtwAllocStainfo
  cases hqueue : s.freeStaQueue with
  | nil => exact h
  | cons psta queue =>
    have hlt : ¬ wifiMacHash hwaddr ≥ numSta := Nat.not_le_of_lt (wifiMacHash_lt hwaddr)
    simp only [hlt, if_false]
    -- the new station is in no chain
    have hfresh : psta ∉ s.live := by
      intro hlive
      have hdisj := (List.nodup_append.mp h.nodup_append).2.2
      exact hdisj psta (hqueue ▸ List.mem_cons_self) psta (List.mem_append_left _ hlive) rfl
    have hlive := contents_push (h := s.staHash) psta (wifiMacHash_lt hwaddr)
    have hmac (q : ℕ) (hq : q ∈ s.live) :
        Function.update s.macAddr psta hwaddr q = s.macAddr q := by
      refine Function.update_of_ne ?_ _ _
      rintro rfl
      exact hfresh hq
    refine ⟨?_, ?_, ?_, ?_⟩
    · refine List.Perm.trans ?_ h.parts
      rw [hqueue, List.append_nil, List.append_nil]
      refine (hlive.append_left queue).trans ?_
      rw [← List.append_assoc]
      exact List.perm_append_comm
    · have hlen := hlive.length_eq
      have hcount := h.count
      simp only [StaPriv.live, List.length_append, List.length_singleton, List.length_nil] at *
      omega
    · intro b hb q hq
      dsimp only at hq ⊢
      by_cases hbi : b = wifiMacHash hwaddr
      · subst hbi
        rw [Function.update_self, List.mem_append, List.mem_singleton] at hq
        obtain hq | rfl := hq
        · rw [hmac q (mem_contents.mpr ⟨_, hb, hq⟩)]
          exact h.bucket _ hb q hq
        · rw [Function.update_self]
      · rw [Function.update_of_ne hbi] at hq
        rw [hmac q (mem_contents.mpr ⟨_, hb, hq⟩)]
        exact h.bucket b hb q hq
    · -- a live station of the new address would have been found
      have hold (q : ℕ) (hq : q ∈ s.live) (hkey : IsKey hwaddr) : s.macAddr q ≠ hwaddr := by
        have hne := h.find_none hnew hq
        rwa [show lookupAddr hwaddr = hwaddr from hkey] at hne
      intro p hp q hq hkey heq
      dsimp only at hkey heq
      have hp' := hlive.mem_iff.mp hp
      have hq' := hlive.mem_iff.mp hq
      rw [List.mem_append, List.mem_singleton] at hp' hq'
      obtain hp' | rfl := hp'
      · rw [hmac p hp'] at hkey heq
        obtain hq' | rfl := hq'
        · rw [hmac q hq'] at heq
          exact h.unique p hp' q hq' hkey heq
        · rw [Function.update_self] at heq
          rw [heq] at hkey
          exact absurd heq (hold p hp' hkey)
      · rw [Function.update_self] at hkey heq
        obtain hq' | rfl := hq'
        · rw [hmac q hq'] at heq
          exact absurd heq.symm (hold q hq' hkey)
        · rfl

theorem hashDelete_live (hnodup : s.live.Nodup) (psta : ℕ) :
    (hashDelete s psta).live = s.live.erase psta := contents_erase hnodup psta

/-- A live station is unlinked. -/
theorem StaInv.hashDelete (h : StaInv s pending) {psta : ℕ} (hlive : psta ∈ s.live) :
    StaInv (hashDelete s psta) (psta :: pending) where
  parts := by
    refine List.Perm.trans ?_ h.parts
    rw [hashDelete_live h.nodup_live]
    refine List.Perm.append_left _ ?_
    refine List.perm_middle.trans ?_
    rw [← List.cons_append]
    exact ((List.perm_cons_erase hlive).symm).append_right pending
  count := by
    have hlen := List.length_erase_add_one hlive
    have hcount := h.count
    rw [hashDelete_live h.nodup_live, List.length_cons]
    change s.asocStaCount = _
    omega
  bucket b hb p hp := h.bucket b hb p (List.mem_of_mem_erase hp)
  unique p hp q hq := by
    rw [hashDelete_live h.nodup_live] at hp hq
    exact h.unique p (List.mem_of_mem_erase hp) q (List.mem_of_mem_erase hq)

/-- A station that has been unlinked is unlinked once more. -/
theorem StaInv.hashDelete_again {psta : ℕ} (h : StaInv s (psta :: pending)) :
    StaInv (Core.hashDelete s psta) (psta :: pending) := by
  have hgone : psta ∉ s.live := by
    intro hlive
    have hdisj := (List.nodup_append.mp (List.nodup_append.mp h.nodup_append).2.1).2.2
    exact hdisj psta hlive psta List.mem_cons_self rfl
  have hlive : (Core.hashDelete s psta).live = s.live := by
    rw [hashDelete_live h.nodup_live, List.erase_of_not_mem hgone]
  refine ⟨?_, ?_, fun b hb p hp => h.bucket b hb p (List.mem_of_mem_erase hp), ?_⟩
  · rw [hlive]
    exact h.parts
  · rw [hlive]
    exact h.count
  · rw [hlive]
    exact h.unique

/-- An unlinked station goes into the free queue. -/
theorem StaInv.release {psta : ℕ} (h : StaInv (Core.hashDelete s psta) (psta :: pending)) :
    StaInv (rtwFreeStainfo s psta) pending where
  parts := by
    refine List.Perm.trans ?_ h.parts
    change ((s.freeStaQueue ++ [psta]) ++ ((Core.hashDelete s psta).live ++ pending)).Perm _
    rw [List.append_assoc, List.singleton_append]
    exact List.Perm.append_left _ List.perm_middle.symm
  count := by
    have hcount := h.count
    change s.asocStaCount = _ at hcount
    change s.asocStaCount - 1 = (Core.hashDelete s psta).live.length + _
    rw [List.length_cons] at hcount
    omega
  bucket := h.bucket
  unique := h.unique

/-- The order of the unlinked stations does not matter. -/
theorem StaInv.perm (h : StaInv s pending) {pending' : List ℕ} (hp : pending.Perm pending') :
    StaInv s pending' where
  parts := ((hp.symm.append_left _).append_left _).trans h.parts
  count := by rw [h.count, hp.length_eq]
  bucket := h.bucket
  unique := h.unique

theorem StaInv.lt_numSta (h : StaInv s pending) {psta : ℕ} (hp : psta ∈ s.live ++ pending) :
    psta < numSta :=
  List.mem_range.mp (h.parts.mem_iff.mp (List.mem_append_right _ hp))

theorem toChar_toNat {psta : ℕ} (h : psta < numSta) : (toChar psta).toNat = psta := by
  have hall : ∀ p : Fin numSta, (toChar p).toNat = p := by decide
  exact hall ⟨psta, h⟩

/-- One chain is collected. -/
theorem collect_chain (pbcmc : Option ℕ) {chain : List ℕ} (hnodup : chain.Nodup)
    {acc : StaPriv × List ℤ} (hsub : ∀ psta ∈ chain, psta ∈ acc.1.live)
    (h : StaInv acc.1 pending) (hlist : acc.2 = pending.map toChar) :
    ∃ pending', StaInv (chain.foldl (collect pbcmc) acc).1 pending' ∧
      (chain.foldl (collect pbcmc) acc).2 = pending'.map toChar := by
  induction chain generalizing acc pending with
  | nil => exact ⟨pending, h, hlist⟩
  | cons psta chain ih =>
    rw [List.nodup_cons] at hnodup
    rw [List.forall_mem_cons] at hsub
    rw [List.foldl_cons]
    have hlt := h.lt_numSta (List.mem_append_left pending hsub.1)
    by_cases hbc : pbcmc ≠ some psta
    · have hcollect : collect pbcmc acc psta =
          (Core.hashDelete acc.1 psta, acc.2 ++ [toChar psta]) := by
        rw [collect, if_pos hbc, if_pos hlt]
      have hnext : StaInv (Core.hashDelete acc.1 psta) (pending ++ [psta]) :=
        (h.hashDelete hsub.1).perm (List.perm_append_singleton psta pending).symm
      rw [hcollect]
      refine ih hnodup.2 (fun q hq => ?_) hnext ?_
      · -- the rest of the chain is still linked
        rw [hashDelete_live h.nodup_live]
        have hne : q ≠ psta := fun hqp => hnodup.1 (hqp ▸ hq)
        exact (List.mem_erase_of_ne hne).mpr (hsub.2 q hq)
      · rw [hlist, List.map_append]
        rfl
    · have hcollect : collect pbcmc acc psta = acc := by rw [collect, if_neg hbc]
      rw [hcollect]
      exact ih hnodup.2 hsub.2 h hlist

/-- All chains are collected. -/
theorem collect_chains (pbcmc : Option ℕ) {indexes : List ℕ} (hindex : ∀ b ∈ indexes, b < numSta)
    {acc : StaPriv × List ℤ} (h : StaInv acc.1 pending) (hlist : acc.2 = pending.map toChar) :
    ∃ pending',
      StaInv (indexes.foldl
        (fun acc index => (acc.1.staHash index).foldl (collect pbcmc) acc) acc).1 pending' ∧
      (indexes.foldl (fun acc index => (acc.1.staHash index).foldl (collect pbcmc) acc) acc).2 =
        pending'.map toChar := by
  induction indexes generalizing acc pending with
  | nil => exact ⟨pending, h, hlist⟩
  | cons b indexes ih =>
    rw [List.forall_mem_cons] at hindex
    have hnodup : (acc.1.staHash b).Nodup :=
      (List.nodup_flatMap.mp h.nodup_live).1 b (List.mem_range.mpr hindex.1)
    obtain ⟨pending', h', hlist'⟩ := collect_chain pbcmc hnodup
      (fun psta hp => mem_contents.mpr ⟨b, hindex.1, hp⟩) h hlist
    exact ih hindex.2 h' hlist'

/-- The collected stations are freed. -/
theorem StaInv.free_list (h : StaInv s pending) :
    StaInv ((pending.map toChar).foldl (fun s offset => rtwFreeStainfo s offset.toNat) s) [] := by
  induction pending generalizing s with
  | nil => exact h
  | cons psta pending ih =>
    have hlt := h.lt_numSta (List.mem_append_right _ List.mem_cons_self)
    rw [List.map_cons, List.foldl_cons, toChar_toNat hlt]
    exact ih h.hashDelete_again.release

theorem StaInv.freeAll (h : StaInv s []) : StaInv (rtwFreeAllStainfo s) [] := by
  unfold rtwFreeAllStainfo
  split
  · exact h
  · have hstart : StaInv ((s, []) : StaPriv × List ℤ).1 [] := h
    obtain ⟨pending, h', hlist⟩ := collect_chains (rtwGetBcmcStainfo s)
      (fun b hb => List.mem_range.mp hb) hstart rfl
    simp only [hlist]
    exact h'.free_list

theorem staStep_inv {t : StaPriv} {op : StaOp} (h : StaInv s []) (hstep : staStep s op = some t) :
    StaInv t [] := by
  cases op with
  | alloc hwaddr =>
    obtain ⟨hnew, ht⟩ := Option.ite_none_right_eq_some.mp hstep
    obtain rfl := Option.some.inj ht
    exact h.alloc hnew
  | free psta =>
    obtain ⟨hlive, ht⟩ := Option.ite_none_right_eq_some.mp hstep
    obtain rfl := Option.some.inj ht
    exact (h.hashDelete hlive).release
  | freeAll =>
    obtain rfl := Option.some.inj hstep
    exact h.freeAll

/-! ## Runs -/

/-- What holds of the tables: every station object is in the free queue or in a chain, once; the
counter is the number of stations in the chains; a station is in the chain its address hashes to;
and a lookup finds the only live station of the address that is searched for, if there is one. -/
structure StaOk (s : StaPriv) : Prop where
  parts : (s.freeStaQueue ++ s.live).Perm (List.range numSta)
  count : s.asocStaCount = s.live.length
  bucket : ∀ b < numSta, ∀ psta ∈ s.staHash b, wifiMacHash (s.macAddr psta) = b
  get_some (a : EthAddr) (psta : ℕ) : rtwGetStainfo s a = some psta ↔
    psta ∈ s.live ∧ s.macAddr psta = lookupAddr a
  get_none (a : EthAddr) : rtwGetStainfo s a = none ↔ ∀ q ∈ s.live, s.macAddr q ≠ lookupAddr a

theorem StaInv.ok (h : StaInv s []) : StaOk s where
  parts := by
    have hparts := h.parts
    rwa [List.append_nil] at hparts
  count := by
    have hcount := h.count
    simpa using hcount
  bucket := h.bucket
  get_some a psta := by
    constructor
    · exact fun hfind => find_some hfind
    · rintro ⟨hlive, haddr⟩
      cases hfind : rtwGetStainfo s a with
      | none => exact absurd haddr (h.find_none hfind hlive)
      | some q =>
        -- the address is a key, so only one station has it
        obtain ⟨hq, hqaddr⟩ := find_some hfind
        have hkey : IsKey (s.macAddr q) := hqaddr ▸ isKey_lookupAddr a
        rw [h.unique q hq psta hlive hkey (hqaddr.trans haddr.symm)]
  get_none a := by
    constructor
    · exact fun hfind q hq => h.find_none hfind hq
    · intro hnone
      cases hfind : rtwGetStainfo s a with
      | none => rfl
      | some q => exact absurd (find_some hfind).2 (hnone q (find_some hfind).1)

/-- The law of the tables, after every sequence of allocations for addresses without a station,
frees of live stations and frees of all of them. -/
theorem staOk_run {t : StaPriv} (ops : List StaOp) (h : run staStep rtwInitStaPriv ops = some t) :
    StaOk t := by
  have hinv : StaInv t [] := run_preserves (fun s => StaInv s [])
    (fun s op s' hs _ hstep => staStep_inv hs hstep) rtwInitStaPriv_inv
    (guarded_of_forall (fun _ _ => trivial) _) h
  exact hinv.ok

/-- The broadcast station is allocated, then a station, and all of them are freed. -/
theorem staOk_run_freeAll :
    StaOk ((run staStep rtwInitStaPriv
      [.alloc bcAddr, .alloc ⟨0x02, 0, 0, 0, 0, 1⟩, .freeAll]).getD rtwInitStaPriv) :=
  staOk_run [.alloc bcAddr, .alloc ⟨0x02, 0, 0, 0, 0, 1⟩, .freeAll] rfl

end Rtl88x2cu.Core
