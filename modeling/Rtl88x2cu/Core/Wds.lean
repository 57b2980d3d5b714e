import Mathlib.Algebra.Order.Ring.Nat
import Mathlib.Data.List.AList
import Rtl88x2cu.EthAddr
import Rtl88x2cu.Lib.Run

/-!
# The paths and the proxy records of WDS

An access point keeps a table of the stations behind each WDS peer, and a table of the sources it
sends group-addressed frames for (`core/wds/rtw_wds.c`). A slot of the table is taken in an atomic
counter before the entry is allocated and inserted, and given back when an entry is deleted.

The hash tables are finite maps. `exact_iff` says in which runs the counters are the sizes of the
tables: those in which every add that takes a slot inserts an entry.
-/

namespace Rtl88x2cu.Core.Wds

/-! ## Tables with a counter -/

/-- The error codes. -/
inductive Errno where
  | enotsupp
  | enospc
  | enomem
  | eexist
  | e2big
  | ebusy
  | enxio
  deriving DecidableEq, Repr

/-- The errors of an insertion into a hash table, but for `-EEXIST`. -/
inductive InsertErr where
  | enomem
  | e2big
  | ebusy
  deriving DecidableEq, Repr

def InsertErr.errno : InsertErr → Errno
  | enomem => .enomem
  | e2big => .e2big
  | ebusy => .ebusy

/-- What the allocator and the hash table do during an add. -/
structure Faults where
  /-- Whether there is memory for the new entry. -/
  alloc : Bool
  insert : Option InsertErr
  deriving DecidableEq, Repr

/-- `rtw_rhashtable`, keyed by an address. -/
abbrev Rhashtable (α : Type) := AList fun _ : EthAddr => α

/-- A table and its counter: `wds_paths` and `wds_path_num`, `wds_gpt_records` and
`wds_gpt_record_num`. -/
structure Counted (α : Type) where
  num : ℤ
  tbl : Option (Rhashtable α)

variable {α : Type}

/-- The number of entries; no table has none. -/
def Counted.size (c : Counted α) : ℕ :=
  match c.tbl with
  | none => 0
  | some tbl => tbl.keys.length

/-- The counter is the number of entries. -/
def Counted.Exact (c : Counted α) : Prop := c.num = c.size

instance (c : Counted α) : Decidable c.Exact := by
  unfold Counted.Exact
  infer_instance

/-- The entry of `key`. -/
def Counted.lookup (c : Counted α) (key : EthAddr) : Option α :=
  c.tbl.bind fun tbl => tbl.lookup key

/-- `rtw_rhashtable_lookup_insert_fast`. -/
def lookupInsertFast (tbl : Rhashtable α) (key : EthAddr) (new : α) (insert : Option InsertErr) :
    Option Errno × Rhashtable α :=
  match insert with
  | some e => (some e.errno, tbl)
  | none => if key ∈ tbl then (some .eexist, tbl) else (none, tbl.insert key new)

/-- The part that `rtw_wds_path_add` and `rtw_wds_gptr_add` have in common: reserve a slot, allocate
an entry and insert it. The loop around the insertion is left in its first turn, by
`lookup_isSome_of_eexist`. -/
def reserveAndInsert (max : ℤ) (tbl : Rhashtable α) (key : EthAddr) (new : α) (f : Faults)
    (c : Counted α) : Except Errno Unit × Counted α :=
  if c.num = max then
    (.error .enospc, c)
  else
    let c := { c with num := c.num + 1 }
    if !f.alloc then
      (.error .enomem, c)
    else
      match lookupInsertFast tbl key new f.insert with
      | (none, tbl) => (.ok (), { c with tbl := some tbl })
      | (some .eexist, _) => (.ok (), c)
      | (some e, _) => (.error e, c)

/-- Write the entry of `key`, if there is one. -/
def Counted.modify (c : Counted α) (key : EthAddr) (f : α → α) : Counted α :=
  match c.tbl with
  | none => c
  | some tbl =>
    match tbl.lookup key with
    | none => c
    | some entry => { c with tbl := some (tbl.replace key (f entry)) }

/-- `__rtw_wds_path_del`, `__rtw_wds_gptr_del`. -/
def Counted.del (c : Counted α) (tbl : Rhashtable α) (key : EthAddr) : Counted α :=
  { num := c.num - 1, tbl := some (tbl.erase key) }

/-- A walk that deletes the entries for which `p` holds. The keys are those of the entries that the
walk comes by, in this order: it may be any, and a walk that fails ends early. -/
def walkDel (p : α → Bool) (c : Counted α) : List EthAddr → Counted α
  | [] => c
  | key :: keys =>
    match c.tbl with
    | none => c
    | some tbl =>
      match tbl.lookup key with
      | none => walkDel p c keys
      | some entry => walkDel p (if p entry then c.del tbl key else c) keys

/-- `rtw_rhashtable_free_and_destroy`, which frees every entry, and the table set to `NULL`. -/
def Counted.unregister (c : Counted α) : Counted α :=
  match c.tbl with
  | none => c
  | some tbl => { num := tbl.keys.foldl (fun num _ => num - 1) c.num, tbl := none }

/-- `rtw_wds_pathtbl_init`, `rtw_wds_gptr_tbl_init`. -/
def Counted.tblInit (c : Counted α) (alloc : Bool) : Except Errno Unit × Counted α :=
  if alloc then (.ok (), { num := 0, tbl := some ∅ }) else (.error .enomem, c)

/-! ## The operations of an interface -/

/-- `struct rtw_wds_path`. -/
structure WdsPath (Sta : Type) where
  dst : EthAddr
  lastUpdate : Systime
  nextHop : Option Sta
  deriving DecidableEq, Repr

/-- `struct rtw_wds_gptr`. -/
structure WdsGptr where
  src : EthAddr
  lastUpdate : Systime
  deriving DecidableEq, Repr

/-- The fields of an `_adapter` for WDS. `hz` is the kernel's `HZ`. -/
structure Adapter (Sta : Type) where
  hz : Systime
  macAddr : EthAddr
  paths : Counted (WdsPath Sta)
  gptRecords : Counted WdsGptr

section

variable {Sta : Type} [DecidableEq Sta]

/-- `RTW_WDS_MAX_PATHS`. Both tables are bounded by it. -/
def wdsMaxPaths : ℤ := 1024

/-- `rtw_wds_path_new`. -/
def rtwWdsPathNew (now : Systime) (dst : EthAddr) : WdsPath Sta :=
  { dst := dst, lastUpdate := now, nextHop := none }

/-- `rtw_wds_path_assign_nexthop`. -/
def rtwWdsPathAssignNexthop (nextHop : Sta) (wpath : WdsPath Sta) : WdsPath Sta :=
  { wpath with nextHop := some nextHop }

/-- `rtw_wds_path_add`. -/
def rtwWdsPathAdd (now : Systime) (dst : EthAddr) (nextHop : Sta) (f : Faults) (a : Adapter Sta) :
    Except Errno Unit × Adapter Sta :=
  match a.paths.tbl with
  | none => (.error .enotsupp, a)
  | some tbl =>
    -- never add ourselves as neighbours
    if dst = a.macAddr then (.error .enotsupp, a)
    else if dst.isMcast then (.error .enotsupp, a)
    else
      match reserveAndInsert wdsMaxPaths tbl dst (rtwWdsPathNew now dst) f a.paths with
      | (.error e, c) => (.error e, { a with paths := c })
      | (.ok (), c) =>
        (.ok (), { a with paths := c.modify dst (rtwWdsPathAssignNexthop nextHop) })

/-- The WDS part of `rtw_ap_rx_msdu_act_check`: the path of the source of a received frame. -/
def rtwApRxMsduWds (now : Systime) (sa : EthAddr) (psta : Sta) (f : Faults) (a : Adapter Sta) :
    Except Errno Unit × Adapter Sta :=
  match a.paths.lookup sa with
  | none => rtwWdsPathAdd now sa psta f a
  | some _ =>
    (.ok (), { a with
      paths := a.paths.modify sa fun wpath =>
        { rtwWdsPathAssignNexthop psta wpath with lastUpdate := now } })

/-- `rtw_wds_path_del`. -/
def rtwWdsPathDel (addr : EthAddr) (a : Adapter Sta) : Except Errno Unit × Adapter Sta :=
  match a.paths.tbl with
  | none => (.error .enxio, a)
  | some tbl =>
    match tbl.lookup addr with
    | none => (.error .enxio, a)
    | some _ => (.ok (), { a with paths := a.paths.del tbl addr })

/-- `rtw_wds_path_flush_by_nexthop`. -/
def rtwWdsPathFlushByNexthop (sta : Sta) (walk : List EthAddr) (a : Adapter Sta) : Adapter Sta :=
  { a with paths := walkDel (fun wpath => wpath.nextHop = some sta) a.paths walk }

/-- `rtw_wds_path_flush_by_iface`. -/
def rtwWdsPathFlushByIface (walk : List EthAddr) (a : Adapter Sta) : Adapter Sta :=
  { a with paths := walkDel (fun _ => true) a.paths walk }

/-- `rtw_wds_path_expire`, with `RTW_WDS_PATH_EXPIRE`. -/
def rtwWdsPathExpire (now : Systime) (walk : List EthAddr) (a : Adapter Sta) : Adapter Sta :=
  { a with
    paths := walkDel (fun wpath => rtwTimeAfter now (wpath.lastUpdate + 600 * a.hz)) a.paths walk }

/-- `rtw_wds_gptr_add`. -/
def rtwWdsGptrAdd (now : Systime) (src : EthAddr) (f : Faults) (a : Adapter Sta) :
    Except Errno Unit × Adapter Sta :=
  match a.gptRecords.tbl with
  | none => (.error .enotsupp, a)
  | some tbl =>
    match reserveAndInsert wdsMaxPaths tbl src ⟨src, now⟩ f a.gptRecords with
    | (r, c) => (r, { a with gptRecords := c })

/-- `rtw_tx_wds_gptr_update`. -/
def rtwTxWdsGptrUpdate (now : Systime) (src : EthAddr) (f : Faults) (a : Adapter Sta) :
    Except Errno Unit × Adapter Sta :=
  match a.gptRecords.lookup src with
  | none => rtwWdsGptrAdd now src f a
  | some _ =>
    (.ok (), { a with
      gptRecords := a.gptRecords.modify src fun wgptr => { wgptr with lastUpdate := now } })

/-- `rtw_wds_gptr_expire`, with `RTW_WDS_GPTR_EXPIRE`. -/
def rtwWdsGptrExpire (now : Systime) (walk : List EthAddr) (a : Adapter Sta) : Adapter Sta :=
  { a with
    gptRecords :=
      walkDel (fun wgptr => rtwTimeAfter now (wgptr.lastUpdate + 2 * a.hz)) a.gptRecords walk }

/-- A call. `gptrAdd` stands for a sender whose lookup missed before another one inserted: the
lookup and the insertion of `rtw_tx_wds_gptr_update` are under no lock. -/
inductive Op (Sta : Type) where
  | pathAdd (now : Systime) (dst : EthAddr) (nextHop : Sta) (f : Faults)
  | rxMsdu (now : Systime) (sa : EthAddr) (psta : Sta) (f : Faults)
  | pathDel (addr : EthAddr)
  | pathFlushByNexthop (sta : Sta) (walk : List EthAddr)
  | pathFlushByIface (walk : List EthAddr)
  | pathExpire (now : Systime) (walk : List EthAddr)
  | pathtblInit (alloc : Bool)
  | pathtblUnregister
  | gptrAdd (now : Systime) (src : EthAddr) (f : Faults)
  | gptrUpdate (now : Systime) (src : EthAddr) (f : Faults)
  | gptrExpire (now : Systime) (walk : List EthAddr)
  | gptrTblInit (alloc : Bool)
  | gptrTblUnregister

/-- A call's result and the state after it. -/
def exec (a : Adapter Sta) : Op Sta → Except Errno Unit × Adapter Sta
  | .pathAdd now dst nextHop f => rtwWdsPathAdd now dst nextHop f a
  | .rxMsdu now sa psta f => rtwApRxMsduWds now sa psta f a
  | .pathDel addr => rtwWdsPathDel addr a
  | .pathFlushByNexthop sta walk => (.ok (), rtwWdsPathFlushByNexthop sta walk a)
  | .pathFlushByIface walk => (.ok (), rtwWdsPathFlushByIface walk a)
  | .pathExpire now walk => (.ok (), rtwWdsPathExpire now walk a)
  | .pathtblInit alloc => ((a.paths.tblInit alloc).1, { a with paths := (a.paths.tblInit alloc).2 })
  | .pathtblUnregister => (.ok (), { a with paths := a.paths.unregister })
  | .gptrAdd now src f => rtwWdsGptrAdd now src f a
  | .gptrUpdate now src f => rtwTxWdsGptrUpdate now src f a
  | .gptrExpire now walk => (.ok (), rtwWdsGptrExpire now walk a)
  | .gptrTblInit alloc =>
    ((a.gptRecords.tblInit alloc).1, { a with gptRecords := (a.gptRecords.tblInit alloc).2 })
  | .gptrTblUnregister => (.ok (), { a with gptRecords := a.gptRecords.unregister })

def step (a : Adapter Sta) (op : Op Sta) : Option (Adapter Sta) := some (exec a op).2

/-- The interface after `rtw_wds_pathtbl_init` and `rtw_wds_gptr_tbl_init`. -/
def initAdapter (hz : Systime) (macAddr : EthAddr) : Adapter Sta where
  hz := hz
  macAddr := macAddr
  paths := ⟨0, some ∅⟩
  gptRecords := ⟨0, some ∅⟩

end

/-! ## The counter of a table -/

/-- An insertion that finds the key in use is followed by a lookup that finds the entry. -/
theorem lookup_isSome_of_eexist {tbl : Rhashtable α} {key : EthAddr} {new : α}
    {insert : Option InsertErr} (h : (lookupInsertFast tbl key new insert).1 = some .eexist) :
    ((lookupInsertFast tbl key new insert).2.lookup key).isSome := by
  unfold lookupInsertFast at h ⊢
  cases insert with
  | some e => cases e <;> cases h
  | none =>
    by_cases hkey : key ∈ tbl
    · rwa [if_pos hkey, AList.lookup_isSome]
    · simp [hkey] at h

/-- An add takes a slot and inserts an entry into it, or takes none. -/
def Fits (max : ℤ) (key : EthAddr) (f : Faults) (c : Counted α) : Prop :=
  c.num ≠ max → f.alloc = true ∧ f.insert = none ∧ c.lookup key = none

section Counter

variable {c : Counted α} {tbl : Rhashtable α} {max : ℤ} {key : EthAddr} (new : α) {f : Faults}

theorem size_eq (htbl : c.tbl = some tbl) : c.size = tbl.keys.length := by
  rw [Counted.size, htbl]

theorem lookup_eq (htbl : c.tbl = some tbl) : c.lookup key = tbl.lookup key := by
  rw [Counted.lookup, htbl]
  rfl

/-- The cases of an add: no slot is left, or the slot is filled, or it is lost. -/
theorem reserveAndInsert_cases (htbl : c.tbl = some tbl) :
    (c.num = max ∧ reserveAndInsert max tbl key new f c = (.error .enospc, c)) ∨
      (c.num ≠ max ∧ Fits max key f c ∧ reserveAndInsert max tbl key new f c =
        (.ok (), { num := c.num + 1, tbl := some (tbl.insert key new) })) ∨
      (c.num ≠ max ∧ ¬ Fits max key f c ∧
        (reserveAndInsert max tbl key new f c).2 = { c with num := c.num + 1 }) := by
  unfold reserveAndInsert
  by_cases hmax : c.num = max
  · exact .inl ⟨hmax, if_pos hmax⟩
  · rw [if_neg hmax]
    refine .inr ?_
    cases halloc : f.alloc with
    | false => exact .inr ⟨hmax, fun h => by simp [h hmax] at halloc, rfl⟩
    | true =>
      cases hins : f.insert with
      | some e =>
        refine .inr ⟨hmax, fun h => by simp [h hmax] at hins, ?_⟩
        cases e <;> rfl
      | none =>
        by_cases hkey : key ∈ tbl
        · -- the key is in use: the new entry is freed, its slot is not
          refine .inr ⟨hmax, fun h => ?_, by simp [lookupInsertFast, hkey]⟩
          have hnone := (h hmax).2.2
          rw [lookup_eq htbl, AList.lookup_eq_none] at hnone
          exact hnone hkey
        · refine .inl ⟨hmax, fun _ => ⟨halloc, hins, ?_⟩, by simp [lookupInsertFast, hkey]⟩
          rw [lookup_eq htbl, AList.lookup_eq_none]
          exact hkey

/-- An add keeps the counter exact if and only if it fills the slot it takes. -/
theorem reserveAndInsert_exact_iff (hex : c.Exact) (htbl : c.tbl = some tbl) :
    (reserveAndInsert max tbl key new f c).2.Exact ↔ Fits max key f c := by
  have hnum : c.num = tbl.keys.length := by rw [hex, size_eq htbl]
  obtain ⟨hmax, h⟩ | ⟨hmax, hfits, h⟩ | ⟨-, hfits, h⟩ := reserveAndInsert_cases new htbl
  · rw [h]
    exact iff_of_true hex fun hne => absurd hmax hne
  · have hkey : key ∉ tbl.keys := by
      have hnone := (hfits hmax).2.2
      rwa [lookup_eq htbl, AList.lookup_eq_none, AList.mem_keys] at hnone
    rw [h]
    refine iff_of_true ?_ hfits
    simp [Counted.Exact, Counted.size, hnum, List.erase_of_not_mem hkey]
  · rw [h]
    refine iff_of_false (fun hlost => ?_) hfits
    have : c.num + 1 = tbl.keys.length := by
      simpa [Counted.Exact, Counted.size, htbl] using hlost
    omega

/-- An add that does not lose a slot fails only when no slot is left, and then does nothing. -/
theorem reserveAndInsert_error (htbl : c.tbl = some tbl) (hfits : Fits max key f c) {e : Errno}
    (h : (reserveAndInsert max tbl key new f c).1 = .error e) :
    (reserveAndInsert max tbl key new f c).2 = c ∧ c.num = max := by
  obtain ⟨hmax, h'⟩ | ⟨-, -, h'⟩ | ⟨-, hfits', -⟩ := reserveAndInsert_cases new htbl
  · rw [h']
    exact ⟨rfl, hmax⟩
  · rw [h'] at h
    cases h
  · exact absurd hfits hfits'

theorem modify_exact {g : α → α} : (c.modify key g).Exact ↔ c.Exact := by
  unfold Counted.modify
  split
  · rfl
  · split
    · rfl
    · simp_all [Counted.Exact, Counted.size]

theorem del_exact (hex : c.Exact) (htbl : c.tbl = some tbl) (hkey : key ∈ tbl) :
    (c.del tbl key).Exact := by
  have hnum : c.num = tbl.keys.length := by rw [hex, size_eq htbl]
  have hlen := List.length_erase_add_one (AList.mem_keys.mp hkey)
  simp only [Counted.Exact, Counted.size, Counted.del, AList.keys_erase]
  omega

/-- Whatever entries a walk comes by, and wherever it ends, it gives back a slot for each entry it
deletes. -/
theorem walkDel_exact (p : α → Bool) (hex : c.Exact) (walk : List EthAddr) :
    (walkDel p c walk).Exact := by
  induction walk generalizing c with
  | nil => exact hex
  | cons key walk ih =>
    unfold walkDel
    split
    · exact hex
    · next tbl htbl =>
      split
      · exact ih hex
      · next entry hentry =>
        refine ih ?_
        split
        · refine del_exact hex htbl ?_
          rw [← AList.lookup_isSome, hentry]
          rfl
        · exact hex

theorem unregister_exact (hex : c.Exact) : c.unregister.Exact := by
  have hfold (keys : List EthAddr) (num : ℤ) :
      keys.foldl (fun num _ => num - 1) num = num - keys.length := by
    induction keys generalizing num with
    | nil => simp
    | cons key keys ih =>
      rw [List.foldl_cons, ih, List.length_cons]
      omega
  unfold Counted.unregister
  split
  · exact hex
  · next tbl htbl =>
    rw [Counted.Exact, size_eq htbl] at hex
    simp [Counted.Exact, Counted.size, hfold, hex]

theorem tblInit_exact (hex : c.Exact) (alloc : Bool) : (c.tblInit alloc).2.Exact := by
  cases alloc with
  | true => rfl
  | false => exact hex

end Counter

/-! ## Runs -/

variable {Sta : Type}

/-- Both counters are exact. -/
structure Adapter.Exact (a : Adapter Sta) : Prop where
  paths : a.paths.Exact
  gptRecords : a.gptRecords.Exact

/-- The table that the call adds to has `RTW_WDS_MAX_PATHS` entries. -/
def Full (a : Adapter Sta) : Op Sta → Prop
  | .pathAdd .. => (a.paths.size : ℤ) = wdsMaxPaths
  | .rxMsdu .. => (a.paths.size : ℤ) = wdsMaxPaths
  | .gptrAdd .. => (a.gptRecords.size : ℤ) = wdsMaxPaths
  | .gptrUpdate .. => (a.gptRecords.size : ℤ) = wdsMaxPaths
  | _ => False

/-- A call that fails changes nothing, and is refused for lack of space only by a full table. -/
structure FailsClean [DecidableEq Sta] (a : Adapter Sta) (op : Op Sta) : Prop where
  unchanged (e : Errno) : (exec a op).1 = .error e → (exec a op).2 = a
  full : (exec a op).1 = .error .enospc → Full a op

/-- A path for `dst` is refused by the first checks, or fits. -/
def PathFits (a : Adapter Sta) (dst : EthAddr) (f : Faults) : Prop :=
  a.paths.tbl.isSome → dst ≠ a.macAddr → dst.isMcast = false → Fits wdsMaxPaths dst f a.paths

/-- A record for `src` is refused for want of a table, or fits. -/
def GptrFits (a : Adapter Sta) (src : EthAddr) (f : Faults) : Prop :=
  a.gptRecords.tbl.isSome → Fits wdsMaxPaths src f a.gptRecords

/-- If the call takes a slot, there is memory for the entry, the insertion does not fail, and the
address is not in the table yet. -/
def OpFits (a : Adapter Sta) : Op Sta → Prop
  | .pathAdd _ dst _ f => PathFits a dst f
  | .rxMsdu _ sa _ f => a.paths.lookup sa = none → PathFits a sa f
  | .gptrAdd _ src f => GptrFits a src f
  | .gptrUpdate _ src f => a.gptRecords.lookup src = none → GptrFits a src f
  | _ => True

variable {a : Adapter Sta} {now : Systime} {key : EthAddr} {nextHop : Sta} {f : Faults}

/-- An add of a path keeps the counters exact if and only if the path fits. -/
theorem rtwWdsPathAdd_exact_iff (hex : a.Exact) :
    (rtwWdsPathAdd now key nextHop f a).2.Exact ↔ PathFits a key f := by
  unfold rtwWdsPathAdd
  split
  · next htbl => exact iff_of_true hex fun h => by simp [htbl] at h
  · next tbl htbl =>
    split
    · next hself => exact iff_of_true hex fun _ hne => absurd hself hne
    · next hself =>
      split
      · next hmcast => exact iff_of_true hex fun _ _ h => by simp [hmcast] at h
      · next hmcast =>
        have hfits : PathFits a key f ↔ Fits wdsMaxPaths key f a.paths := by
          simp [PathFits, htbl, hself, hmcast]
        rw [hfits, ← reserveAndInsert_exact_iff (rtwWdsPathNew now key) hex.paths htbl]
        split
        · next e c hc =>
          rw [hc]
          exact ⟨fun h => h.paths, fun h => ⟨h, hex.gptRecords⟩⟩
        · next c hc =>
          rw [hc]
          exact ⟨fun h => modify_exact.mp h.paths,
            fun h => ⟨modify_exact.mpr h, hex.gptRecords⟩⟩

/-- An add of a path that loses no slot changes nothing when it fails. -/
theorem rtwWdsPathAdd_error (hfits : PathFits a key f) {e : Errno}
    (h : (rtwWdsPathAdd now key nextHop f a).1 = .error e) :
    (rtwWdsPathAdd now key nextHop f a).2 = a ∧ (e = .enospc → a.paths.num = wdsMaxPaths) := by
  revert h
  unfold rtwWdsPathAdd
  split
  · rintro ⟨⟩
    exact ⟨rfl, nofun⟩
  · next tbl htbl =>
    split
    · rintro ⟨⟩
      exact ⟨rfl, nofun⟩
    · next hself =>
      split
      · rintro ⟨⟩
        exact ⟨rfl, nofun⟩
      · next hmcast =>
        have hfits : Fits wdsMaxPaths key f a.paths := by
          refine hfits ?_ hself ?_
          · rw [htbl]
            rfl
          · simpa using hmcast
        split
        · next e' c hc =>
          intro h
          obtain ⟨hsame, hnum⟩ := reserveAndInsert_error (rtwWdsPathNew now key) htbl hfits
            (congrArg Prod.fst hc)
          rw [hc] at hsame
          obtain rfl : c = a.paths := hsame
          exact ⟨rfl, fun _ => hnum⟩
        · simp

/-- An add of a record keeps the counters exact if and only if the record fits. -/
theorem rtwWdsGptrAdd_exact_iff (hex : a.Exact) :
    (rtwWdsGptrAdd now key f a).2.Exact ↔ GptrFits a key f := by
  unfold rtwWdsGptrAdd
  split
  · next htbl => exact iff_of_true hex fun h => by simp [htbl] at h
  · next tbl htbl =>
    have hfits : GptrFits a key f ↔ Fits wdsMaxPaths key f a.gptRecords := by
      simp [GptrFits, htbl]
    rw [hfits, ← reserveAndInsert_exact_iff ⟨key, now⟩ hex.gptRecords htbl]
    exact ⟨fun h => h.gptRecords, fun h => ⟨hex.paths, h⟩⟩

/-- An add of a record that loses no slot changes nothing when it fails. -/
theorem rtwWdsGptrAdd_error (hfits : GptrFits a key f) {e : Errno}
    (h : (rtwWdsGptrAdd now key f a).1 = .error e) :
    (rtwWdsGptrAdd now key f a).2 = a ∧ (e = .enospc → a.gptRecords.num = wdsMaxPaths) := by
  unfold rtwWdsGptrAdd at h ⊢
  split at h
  · cases h
    exact ⟨rfl, fun h => by cases h⟩
  · next tbl htbl =>
    have hfits : Fits wdsMaxPaths key f a.gptRecords := by
      refine hfits ?_
      rw [htbl]
      rfl
    obtain ⟨hsame, hnum⟩ := reserveAndInsert_error ⟨key, now⟩ htbl hfits h
    refine ⟨?_, fun _ => hnum⟩
    simp only [hsame]

theorem initAdapter_exact (hz : Systime) (macAddr : EthAddr) :
    (initAdapter hz macAddr : Adapter Sta).Exact := ⟨rfl, rfl⟩

variable [DecidableEq Sta]

/-- A call keeps the counters exact if and only if what it adds fits. -/
theorem exec_exact_iff (hex : a.Exact) (op : Op Sta) : (exec a op).2.Exact ↔ OpFits a op := by
  cases op with
  | pathAdd now dst nextHop f => exact rtwWdsPathAdd_exact_iff hex
  | rxMsdu now sa psta f =>
    simp only [exec, rtwApRxMsduWds, OpFits]
    split
    · next hnone =>
      rw [rtwWdsPathAdd_exact_iff hex]
      exact ⟨fun h _ => h, fun h => h hnone⟩
    · next hsome =>
      exact iff_of_true ⟨modify_exact.mpr hex.paths, hex.gptRecords⟩ fun h => by simp [hsome] at h
  | pathDel addr =>
    refine iff_of_true ?_ trivial
    simp only [exec, rtwWdsPathDel]
    split
    · exact hex
    · next tbl htbl =>
      split
      · exact hex
      · next entry hentry =>
        refine ⟨del_exact hex.paths htbl ?_, hex.gptRecords⟩
        rw [← AList.lookup_isSome, hentry]
        rfl
  | pathFlushByNexthop sta walk =>
    exact iff_of_true ⟨walkDel_exact _ hex.paths walk, hex.gptRecords⟩ trivial
  | pathFlushByIface walk =>
    exact iff_of_true ⟨walkDel_exact _ hex.paths walk, hex.gptRecords⟩ trivial
  | pathExpire now walk =>
    exact iff_of_true ⟨walkDel_exact _ hex.paths walk, hex.gptRecords⟩ trivial
  | pathtblInit alloc => exact iff_of_true ⟨tblInit_exact hex.paths alloc, hex.gptRecords⟩ trivial
  | pathtblUnregister => exact iff_of_true ⟨unregister_exact hex.paths, hex.gptRecords⟩ trivial
  | gptrAdd now src f => exact rtwWdsGptrAdd_exact_iff hex
  | gptrUpdate now src f =>
    simp only [exec, rtwTxWdsGptrUpdate, OpFits]
    split
    · next hnone =>
      rw [rtwWdsGptrAdd_exact_iff hex]
      exact ⟨fun h _ => h, fun h => h hnone⟩
    · next hsome =>
      exact iff_of_true ⟨hex.paths, modify_exact.mpr hex.gptRecords⟩ fun h => by simp [hsome] at h
  | gptrExpire now walk =>
    exact iff_of_true ⟨hex.paths, walkDel_exact _ hex.gptRecords walk⟩ trivial
  | gptrTblInit alloc =>
    exact iff_of_true ⟨hex.paths, tblInit_exact hex.gptRecords alloc⟩ trivial
  | gptrTblUnregister => exact iff_of_true ⟨hex.paths, unregister_exact hex.gptRecords⟩ trivial

/-- With exact counters, a call whose entry fits fails only cleanly. -/
theorem failsClean (hex : a.Exact) {op : Op Sta} (hfits : OpFits a op) : FailsClean a op := by
  -- the counter of a full table is its size
  have hpaths (h : a.paths.num = wdsMaxPaths) : (a.paths.size : ℤ) = wdsMaxPaths :=
    hex.paths.symm.trans h
  have hgptr (h : a.gptRecords.num = wdsMaxPaths) : (a.gptRecords.size : ℤ) = wdsMaxPaths :=
    hex.gptRecords.symm.trans h
  cases op with
  | pathAdd now dst nextHop f =>
    exact ⟨fun e h => (rtwWdsPathAdd_error hfits h).1,
      fun h => hpaths ((rtwWdsPathAdd_error hfits h).2 rfl)⟩
  | rxMsdu now sa psta f =>
    cases hlookup : a.paths.lookup sa with
    | none =>
      have hexec : exec a (.rxMsdu now sa psta f) = rtwWdsPathAdd now sa psta f a := by
        simp only [exec, rtwApRxMsduWds, hlookup]
      refine ⟨fun e h => ?_, fun h => hpaths ?_⟩
      · rw [hexec] at h ⊢
        exact (rtwWdsPathAdd_error (hfits hlookup) h).1
      · rw [hexec] at h
        exact (rtwWdsPathAdd_error (hfits hlookup) h).2 rfl
    | some wpath => constructor <;> simp [exec, rtwApRxMsduWds, hlookup]
  | pathDel addr =>
    constructor <;> simp only [exec, rtwWdsPathDel] <;> split <;> try simp
    all_goals split <;> simp
  | gptrAdd now src f =>
    exact ⟨fun e h => (rtwWdsGptrAdd_error hfits h).1,
      fun h => hgptr ((rtwWdsGptrAdd_error hfits h).2 rfl)⟩
  | gptrUpdate now src f =>
    cases hlookup : a.gptRecords.lookup src with
    | none =>
      have hexec : exec a (.gptrUpdate now src f) = rtwWdsGptrAdd now src f a := by
        simp only [exec, rtwTxWdsGptrUpdate, hlookup]
      refine ⟨fun e h => ?_, fun h => hgptr ?_⟩
      · rw [hexec] at h ⊢
        exact (rtwWdsGptrAdd_error (hfits hlookup) h).1
      · rw [hexec] at h
        exact (rtwWdsGptrAdd_error (hfits hlookup) h).2 rfl
    | some wgptr => constructor <;> simp [exec, rtwTxWdsGptrUpdate, hlookup]
  | pathtblInit alloc => cases alloc <;> constructor <;> simp [exec, Counted.tblInit]
  | gptrTblInit alloc => cases alloc <;> constructor <;> simp [exec, Counted.tblInit]
  | pathFlushByNexthop sta walk => constructor <;> simp [exec]
  | pathFlushByIface walk => constructor <;> simp [exec]
  | pathExpire now walk => constructor <;> simp [exec]
  | pathtblUnregister => constructor <;> simp [exec]
  | gptrExpire now walk => constructor <;> simp [exec]
  | gptrTblUnregister => constructor <;> simp [exec]

/-- What is expected of a run: in every state that it comes through the counters are exact, and its
calls fail only cleanly. -/
def CountersKept (a : Adapter Sta) (ops : List (Op Sta)) : Prop :=
  ∀ pre t, pre <+: ops → run step a pre = some t →
    t.Exact ∧ ∀ op, pre ++ [op] <+: ops → FailsClean t op

/-- The counters are kept in exactly the runs in which every entry that takes a slot is inserted:
there is memory for it, the insertion does not fail, and its address was not in the table. -/
theorem exact_iff (hz : Systime) (macAddr : EthAddr) (ops : List (Op Sta)) :
    CountersKept (initAdapter hz macAddr) ops ↔
      Guarded step OpFits (initAdapter hz macAddr) ops := by
  have hiff : (∀ pre t, pre <+: ops → run step (initAdapter hz macAddr) pre = some t → t.Exact) ↔
      Guarded step OpFits (initAdapter hz macAddr) ops := run_inv_iff_guarded Adapter.Exact
    (fun a op h => by cases h)
    (fun a op t hex h => by
      obtain rfl := Option.some.inj h
      exact exec_exact_iff hex op)
    ops (initAdapter_exact hz macAddr)
  constructor
  · exact fun h => hiff.mp fun pre t hpre ht => (h pre t hpre ht).1
  · refine fun hok pre t hpre ht => ?_
    have hex : t.Exact := hiff.mpr hok pre t hpre ht
    refine ⟨hex, fun op hop => failsClean hex ?_⟩
    obtain ⟨rest, rfl⟩ := hop
    exact hok.of_append.last ht

/-- The group bit of the address is clear. -/
def clientAddr : EthAddr := ⟨0x02, 0, 0, 0, 0, 1⟩

/-- A slot is lost when a path is added twice, when there is no memory for it, and when the hash
table does not take it. -/
theorem duplicatePath_not_kept :
    ¬ CountersKept (initAdapter 250 ⟨0x02, 0, 0, 0, 0, 0⟩ : Adapter ℕ)
        [.pathAdd 0 clientAddr 0 ⟨true, none⟩, .pathAdd 1 clientAddr 0 ⟨true, none⟩] ∧
      ¬ CountersKept (initAdapter 250 ⟨0x02, 0, 0, 0, 0, 0⟩ : Adapter ℕ)
        [.pathAdd 0 clientAddr 0 ⟨false, none⟩] ∧
      ¬ CountersKept (initAdapter 250 ⟨0x02, 0, 0, 0, 0, 0⟩ : Adapter ℕ)
        [.gptrUpdate 0 clientAddr ⟨true, some .e2big⟩] := by
  refine ⟨fun h => ?_, fun h => ?_, fun h => ?_⟩
  · exact absurd (h _ _ (List.prefix_refl _) rfl).1.paths (by decide)
  · exact absurd (h _ _ (List.prefix_refl _) rfl).1.paths (by decide)
  · exact absurd (h _ _ (List.prefix_refl _) rfl).1.gptRecords (by decide)

end Rtl88x2cu.Core.Wds
