import Mathlib.Algebra.Order.Ring.Nat
import Mathlib.Data.List.Perm.Subperm
import Rtl88x2cu.Lib.HashChain
import Rtl88x2cu.Nat25.Frame

/-!
# The NAT2.5 database

The database (`core/rtw_br_ext.c`) keeps a MAC address for each network address, in a hash table of
16 chains. An entry has an age, and a use count that lookups raise and expiry lowers.

The single-entry shortcut (`scdb_mac`, `scdb_ip`, `scdb_entry`) is here because removing an entry
clears it. `Forms db b` says that the entries are chained in the buckets `b`: each where its hash
says, and no two with one network address. `Forms.insert`, `Forms.expire` and `Forms.cleanup` say
that the operations keep this, and what else they do.
-/

namespace Rtl88x2cu.Nat25

/-! ## The clock -/

/-- The clock of the kernel: `HZ` ticks a second, counted in an `unsigned long` of `w` bits. -/
structure Clock (w : ℕ) where
  hz : ℕ
  bits_pos : 0 < w
  /-- The ageing time is in the range of a comparison of two times. -/
  ageing_le : 300 * hz ≤ 2 ^ (w - 1)

variable {w : ℕ} (clk : Clock w)

/-- `NAT25_AGEING_TIME * HZ`. -/
def Clock.ageingTime : ℕ := 300 * clk.hz

/-- `time_before_eq`: `(long)(b - a) >= 0`. -/
def timeBeforeEq (a b : BitVec w) : Bool := !(b - a).msb

/-- `__nat25_timeout`. -/
def nat25Timeout (jiffies : BitVec w) : BitVec w := jiffies - BitVec.ofNat w clk.ageingTime

/-! ## Entries -/

/-- The address of an entry in memory. -/
abbrev Addr := ℕ

/-- `struct nat25_network_db_entry`, but for the two pointers. -/
structure Entry (w : ℕ) where
  useCount : BitVec 32
  macAddr : EthAddr
  ageingTimer : BitVec w
  networkAddr : NetworkAddr

/-- `__nat25_has_expired`. -/
def hasExpired (jiffies : BitVec w) (fdb : Entry w) : Bool :=
  timeBeforeEq fdb.ageingTimer (nat25Timeout clk jiffies)

/-- The hash table. `live` are the entries allocated and not freed. -/
structure Db (w : ℕ) where
  nethash : Chains (Fin 16) Addr
  entry : Addr → Entry w
  live : List Addr

namespace Db

/-- Write an entry. -/
def setEntry (db : Db w) (a : Addr) (e : Entry w) : Db w :=
  { db with entry := Function.update db.entry a e }

@[simp]
theorem entry_setEntry_self (db : Db w) (a : Addr) (e : Entry w) :
    (db.setEntry a e).entry a = e := Function.update_self ..

theorem entry_setEntry_of_ne (db : Db w) {a x : Addr} (e : Entry w) (hx : x ≠ a) :
    (db.setEntry a e).entry x = db.entry x := Function.update_of_ne hx ..

/-- The search for a network address that the operations begin with. It goes along one chain, which
has no more entries than there are. -/
def find (db : Db w) (networkAddr : NetworkAddr) : Option Addr :=
  db.nethash.walk (fun a => (db.entry a).networkAddr = networkAddr) db.live.length
    (db.nethash.head (networkHash networkAddr))

/-- `__nat25_db_network_lookup_and_replace`. The return value is whether an entry is found, expired
or not. -/
def lookupAndReplace (jiffies : BitVec w) (skb : Skb) (networkAddr : NetworkAddr) (db : Db w) :
    Bool × Skb × Db w :=
  match db.find networkAddr with
  | none => (false, skb, db)
  | some a =>
    let e := db.entry a
    if !hasExpired clk jiffies e then
      (true, skb.setMac 0 e.macAddr, db.setEntry a { e with useCount := e.useCount + 1 })
    else
      (true, skb, db)

/-- `__nat25_db_network_insert`. `mem` is what `rtw_malloc` returns. -/
def insert (jiffies : BitVec w) (mem : Option Addr) (macAddr : EthAddr) (networkAddr : NetworkAddr)
    (db : Db w) : Db w :=
  match db.find networkAddr with
  | some a =>
    db.setEntry a { db.entry a with macAddr := macAddr, ageingTimer := jiffies }
  | none =>
    match mem with
    | none => db
    | some a =>
      { nethash := db.nethash.link a (networkHash networkAddr)
        entry := Function.update db.entry a
          { useCount := 1, macAddr := macAddr, ageingTimer := jiffies, networkAddr := networkAddr }
        live := a :: db.live }

end Db

/-- `struct br_ext_info`. -/
structure BrExtInfo where
  nat25Disable : Bool
  dhcpBcstDisable : Bool
  addPPPoETag : Bool
  nat25scDisable : Bool
  deriving DecidableEq, Repr

/-- The fields of an `_adapter` for the bridge extension, and its MAC address. -/
structure Adapter (w : ℕ) where
  macAddr : EthAddr
  db : Db w
  scdbMac : EthAddr
  scdbIp : Ip
  scdbEntry : Option Addr
  brMac : EthAddr
  brIp : Ip
  pppoeConnectionInProgress : ℕ
  pppoeAddr : EthAddr
  ethBrExtInfo : BrExtInfo

/-- Six zero bytes. -/
def zeroMac : EthAddr := { o0 := 0, o1 := 0, o2 := 0, o3 := 0, o4 := 0, o5 := 0 }

/-- `scdb_findEntry`. The MAC address it is called with is not looked at. -/
def scdbFindEntry (_macAddr : EthAddr) (ipAddr : Ip) (s : Adapter w) : Option Addr :=
  s.db.find (ipv4NetworkAddr ipAddr)

/-! ## Walks that remove entries -/

/-- An entry is removed: the shortcut is cleared if it is for this entry. -/
def removeEntry (f : Addr) (s : Adapter w) : Adapter w :=
  let s :=
    if s.scdbEntry = some f then
      { s with scdbMac := zeroMac, scdbIp := zeroIp, scdbEntry := none }
    else s
  { s with db := { s.db with nethash := s.db.nethash.unlink f, live := s.db.live.erase f } }

/-- An entry is visited by `nat25_db_expire`. -/
def expireEntry (jiffies : BitVec w) (f : Addr) (s : Adapter w) : Adapter w :=
  let e := s.db.entry f
  if hasExpired clk jiffies e then
    -- `atomic_dec_and_test`
    let s := { s with db := s.db.setEntry f { e with useCount := e.useCount - 1 } }
    if e.useCount - 1 = 0 then removeEntry f s else s
  else s

/-- The loop along a chain. The pointer to the next entry is read before the entry is visited. -/
def walkChain (visit : Addr → Adapter w → Adapter w) : ℕ → Option Addr → Adapter w → Adapter w
  | 0, _, s => s
  | _ + 1, none, s => s
  | n + 1, some f, s =>
    let g := s.db.nethash.next f
    walkChain visit n g (visit f s)

/-- The loop over the buckets. -/
def walkBuckets (visit : Addr → Adapter w → Adapter w) (s : Adapter w) : Adapter w :=
  (List.finRange 16).foldl
    (fun s i => walkChain visit s.db.live.length (s.db.nethash.head i) s) s

/-- `nat25_db_cleanup`. -/
def nat25DbCleanup (s : Adapter w) : Adapter w := walkBuckets removeEntry s

/-- `nat25_db_expire`. -/
def nat25DbExpire (jiffies : BitVec w) (s : Adapter w) : Adapter w :=
  walkBuckets (expireEntry clk jiffies) s

/-! ## The form of the database -/

/-- The entries are chained in the buckets `b`. -/
structure Db.Forms (db : Db w) (b : Fin 16 → List Addr) : Prop where
  chained : Chained db.nethash b
  hashed : ∀ {i a}, a ∈ b i → networkHash (db.entry a).networkAddr = i
  unique : ∀ {a a'}, a ∈ db.live → a' ∈ db.live →
    (db.entry a).networkAddr = (db.entry a').networkAddr → a = a'
  mem_live : ∀ {a}, a ∈ db.live ↔ ∃ i, a ∈ b i
  nodup : db.live.Nodup

variable {db : Db w} {b : Fin 16 → List Addr} {a : Addr} {na : NetworkAddr} {j : BitVec w}

theorem Db.Forms.length_le (h : db.Forms b) (i : Fin 16) : (b i).length ≤ db.live.length := by
  have hsub : b i ⊆ db.live := fun a ha => h.mem_live.mpr ⟨i, ha⟩
  exact ((h.chained.nodup i).subperm hsub).length_le

/-- The search in terms of the buckets. -/
theorem Db.Forms.find_eq (h : db.Forms b) (na : NetworkAddr) :
    db.find na = (b (networkHash na)).find? fun a => (db.entry a).networkAddr = na :=
  h.chained.walk_eq _ _ (h.length_le _)

/-- The search finds the entry of the network address. -/
theorem Db.Forms.find_eq_some (h : db.Forms b) :
    db.find na = some a ↔ a ∈ db.live ∧ (db.entry a).networkAddr = na := by
  rw [h.find_eq]
  constructor
  · intro hfind
    have hna := List.find?_some hfind
    exact ⟨h.mem_live.mpr ⟨_, List.mem_of_find?_eq_some hfind⟩, by simpa using hna⟩
  · rintro ⟨hlive, rfl⟩
    obtain ⟨i, hi⟩ := h.mem_live.mp hlive
    have hmem : a ∈ b (networkHash (db.entry a).networkAddr) := by
      rw [h.hashed hi]
      exact hi
    cases hfind : (b (networkHash (db.entry a).networkAddr)).find?
        (fun x => (db.entry x).networkAddr = (db.entry a).networkAddr) with
    | none => exact absurd (List.find?_eq_none.mp hfind a hmem) (by simp)
    | some a' =>
      have hna : (db.entry a').networkAddr = (db.entry a).networkAddr := by
        simpa using List.find?_some hfind
      have hlive' := h.mem_live.mpr ⟨_, List.mem_of_find?_eq_some hfind⟩
      rw [h.unique hlive' hlive hna]

theorem Db.Forms.find_eq_none (h : db.Forms b) :
    db.find na = none ↔ ∀ a ∈ db.live, (db.entry a).networkAddr ≠ na := by
  constructor
  · intro hnone a ha hna
    rw [h.find_eq_some.mpr ⟨ha, hna⟩] at hnone
    cases hnone
  · intro hall
    cases hfind : db.find na with
    | none => rfl
    | some a =>
      obtain ⟨ha, hna⟩ := h.find_eq_some.mp hfind
      exact absurd hna (hall a ha)

/-- A change of an entry that keeps its network address keeps the form. -/
theorem Db.Forms.setEntry (h : db.Forms b) (a : Addr) {e : Entry w}
    (he : e.networkAddr = (db.entry a).networkAddr) : (db.setEntry a e).Forms b := by
  have hna (x : Addr) : ((db.setEntry a e).entry x).networkAddr = (db.entry x).networkAddr := by
    by_cases hx : x = a
    · subst hx
      rw [entry_setEntry_self, he]
    · rw [entry_setEntry_of_ne _ _ hx]
  exact
    { chained := h.chained
      hashed := fun hi => (congrArg networkHash (hna _)).trans (h.hashed hi)
      unique := fun ha ha' heq => h.unique ha ha' (by rwa [hna, hna] at heq)
      mem_live := h.mem_live
      nodup := h.nodup }

/-- The database with a new entry. -/
def Db.linkNew (db : Db w) (a : Addr) (e : Entry w) : Db w :=
  { nethash := db.nethash.link a (networkHash e.networkAddr)
    entry := Function.update db.entry a e
    live := a :: db.live }

theorem Db.entry_linkNew_self (db : Db w) (a : Addr) (e : Entry w) :
    (db.linkNew a e).entry a = e := Function.update_self ..

theorem Db.entry_linkNew_of_ne (db : Db w) {a x : Addr} (e : Entry w) (hx : x ≠ a) :
    (db.linkNew a e).entry x = db.entry x := Function.update_of_ne hx ..

theorem Db.Forms.linkNew (h : db.Forms b) {e : Entry w} (ha : a ∉ db.live)
    (hnew : db.find e.networkAddr = none) :
    (db.linkNew a e).Forms
      (Function.update b (networkHash e.networkAddr) (a :: b (networkHash e.networkAddr))) := by
  have hab (i : Fin 16) : a ∉ b i := fun hi => ha (h.mem_live.mpr ⟨i, hi⟩)
  have hold {x : Addr} (hx : x ∈ db.live) : x ≠ a := fun hxa => ha (hxa ▸ hx)
  have hnew := h.find_eq_none.mp hnew
  generalize hk : networkHash e.networkAddr = k
  have hcases {x : Addr} {i : Fin 16} (hx : x ∈ Function.update b k (a :: b k) i) :
      (x = a ∧ i = k) ∨ x ∈ b i := by
    by_cases hi : i = k
    · subst hi
      rw [Function.update_self] at hx
      obtain rfl | hx := List.mem_cons.mp hx
      · exact Or.inl ⟨rfl, rfl⟩
      · exact Or.inr hx
    · rw [Function.update_of_ne hi] at hx
      exact Or.inr hx
  constructor
  case chained => exact hk ▸ h.chained.link hab _
  case hashed =>
    intro i x hx
    obtain ⟨rfl, rfl⟩ | hx := hcases hx
    · rw [entry_linkNew_self, hk]
    · rw [entry_linkNew_of_ne _ _ (hold (h.mem_live.mpr ⟨i, hx⟩))]
      exact h.hashed hx
  case unique =>
    -- the address of the new entry is not that of an old one
    intro x x' hx hx' heq
    obtain hxa | hx := List.mem_cons.mp hx <;> obtain hxa' | hx' := List.mem_cons.mp hx'
    · rw [hxa, hxa']
    · rw [hxa, entry_linkNew_self, entry_linkNew_of_ne _ _ (hold hx')] at heq
      exact absurd heq.symm (hnew x' hx')
    · rw [hxa', entry_linkNew_self, entry_linkNew_of_ne _ _ (hold hx)] at heq
      exact absurd heq (hnew x hx)
    · rw [entry_linkNew_of_ne _ _ (hold hx), entry_linkNew_of_ne _ _ (hold hx')] at heq
      exact h.unique hx hx' heq
  case mem_live =>
    intro x
    constructor
    · intro hx
      obtain rfl | hx := List.mem_cons.mp hx
      · exact ⟨k, by simp⟩
      · obtain ⟨i, hi⟩ := h.mem_live.mp hx
        refine ⟨i, ?_⟩
        by_cases hik : i = k
        · subst hik
          rw [Function.update_self]
          exact List.mem_cons_of_mem a hi
        · rwa [Function.update_of_ne hik]
    · rintro ⟨i, hx⟩
      obtain ⟨rfl, rfl⟩ | hx := hcases hx
      · exact List.mem_cons_self
      · exact List.mem_cons_of_mem a (h.mem_live.mpr ⟨i, hx⟩)
  case nodup => exact List.nodup_cons.mpr ⟨ha, h.nodup⟩

/-! ### Insertion -/

variable {mac : EthAddr}

theorem Db.insert_of_find (mem : Option Addr) (hfind : db.find na = some a) :
    db.insert j mem mac na =
      db.setEntry a { db.entry a with macAddr := mac, ageingTimer := j } := by
  unfold insert
  rw [hfind]

theorem Db.insert_of_mem (hfind : db.find na = none) :
    db.insert j (some a) mac na =
      db.linkNew a
        { useCount := 1, macAddr := mac, ageingTimer := j, networkAddr := na } := by
  unfold insert
  rw [hfind]
  rfl

theorem Db.insert_of_null (hfind : db.find na = none) : db.insert j none mac na = db := by
  unfold insert
  rw [hfind]

/-- An insertion keeps the form, where `rtw_malloc` returns new memory. -/
theorem Db.Forms.insert (h : db.Forms b) (mac : EthAddr) (na : NetworkAddr) (j : BitVec w)
    {mem : Option Addr} (hmem : ∀ a, mem = some a → a ∉ db.live) :
    ∃ b', (db.insert j mem mac na).Forms b' := by
  cases hfind : db.find na with
  | some a =>
    rw [Db.insert_of_find mem hfind]
    exact ⟨b, h.setEntry a rfl⟩
  | none =>
    cases mem with
    | none =>
      rw [Db.insert_of_null hfind]
      exact ⟨b, h⟩
    | some a =>
      rw [Db.insert_of_mem hfind]
      exact ⟨_, h.linkNew (hmem a rfl) hfind⟩

/-- The entry `a` has been inserted: it is the one of the network address, and the only one that has
changed. -/
structure Db.Inserted (j : BitVec w) (mac : EthAddr) (na : NetworkAddr) (a : Addr)
    (db db' : Db w) : Prop where
  mem_live : ∀ {x}, x ∈ db'.live ↔ x = a ∨ x ∈ db.live
  networkAddr : (db'.entry a).networkAddr = na
  macAddr : (db'.entry a).macAddr = mac
  ageingTimer : (db'.entry a).ageingTimer = j
  other : ∀ {x}, x ≠ a → db'.entry x = db.entry x
  only : ∀ {x}, x ∈ db.live → ((db.entry x).networkAddr = na ↔ x = a)

/-- What an insertion does, where there is memory for a new entry. -/
theorem Db.Forms.inserted (h : db.Forms b) (mac : EthAddr) (na : NetworkAddr) (j : BitVec w)
    {mem : Option Addr} (hmem : ∀ a, mem = some a → a ∉ db.live)
    (hnew : db.find na = none → mem ≠ none) :
    ∃ a, Db.Inserted j mac na a db (db.insert j mem mac na) := by
  cases hfind : db.find na with
  | some a =>
    obtain ⟨hlive, hna⟩ := h.find_eq_some.mp hfind
    rw [Db.insert_of_find mem hfind]
    exact ⟨a,
      { mem_live := ⟨Or.inr, fun hx => hx.elim (fun hxa => hxa ▸ hlive) id⟩
        networkAddr := by rw [entry_setEntry_self, hna]
        macAddr := by rw [entry_setEntry_self]
        ageingTimer := by rw [entry_setEntry_self]
        other := fun hx => entry_setEntry_of_ne _ _ hx
        only := fun hx =>
          ⟨fun hxna => h.unique hx hlive (hxna.trans hna.symm), fun hxa => hxa ▸ hna⟩ }⟩
  | none =>
    obtain ⟨a, rfl⟩ := Option.ne_none_iff_exists'.mp (hnew hfind)
    have ha : a ∉ db.live := hmem a rfl
    rw [Db.insert_of_mem hfind]
    exact ⟨a,
      { mem_live := List.mem_cons
        networkAddr := by rw [entry_linkNew_self]
        macAddr := by rw [entry_linkNew_self]
        ageingTimer := by rw [entry_linkNew_self]
        other := fun hx => entry_linkNew_of_ne _ _ hx
        only := fun hx =>
          ⟨fun hxna => absurd hxna (h.find_eq_none.mp hfind _ hx),
            fun hxa => absurd (hxa ▸ hx) ha⟩ }⟩

/-! ### Removal -/

/-- The shortcut is cleared if it was for an entry that is gone, and kept otherwise. -/
inductive ScdbShed (s₀ s : Adapter w) : Prop where
  | kept (hmac : s.scdbMac = s₀.scdbMac) (hip : s.scdbIp = s₀.scdbIp)
      (hentry : s.scdbEntry = s₀.scdbEntry)
      (hlive : ∀ a, s₀.scdbEntry = some a → a ∈ s₀.db.live → a ∈ s.db.live)
  | cleared (hmac : s.scdbMac = zeroMac) (hip : s.scdbIp = zeroIp)
      (hentry : s.scdbEntry = none)

/-- Entries have been removed from a database, each of them satisfying `gone`. The entries that are
left are the same but for their use counts. -/
structure Db.Shed (gone : Entry w → Prop) (db₀ db : Db w) : Prop where
  sub : ∀ a ∈ db.live, a ∈ db₀.live
  entry : ∀ a ∈ db.live, ∃ n, db.entry a = { db₀.entry a with useCount := n }
  gone : ∀ a ∈ db₀.live, a ∉ db.live → gone (db₀.entry a)

/-- Entries have been removed from the database of an adapter. -/
structure AdapterShed (gone : Entry w → Prop) (s₀ s : Adapter w) : Prop where
  db : Db.Shed gone s₀.db s.db
  scdb : ScdbShed s₀ s
  rest : s = { s₀ with
    db := s.db, scdbMac := s.scdbMac, scdbIp := s.scdbIp, scdbEntry := s.scdbEntry }

variable {s s₀ : Adapter w} {gone : Entry w → Prop} {db₀ : Db w}

theorem Db.Shed.refl (gone : Entry w → Prop) (db : Db w) : Db.Shed gone db db :=
  { sub := fun _ h => h
    entry := fun a _ => ⟨(db.entry a).useCount, rfl⟩
    gone := fun _ h h' => absurd h h' }

/-- The use count of an entry is changed. -/
theorem Db.Shed.setEntry (h : Db.Shed gone db₀ db) (a : Addr) (n : BitVec 32) :
    Db.Shed gone db₀ (db.setEntry a { db.entry a with useCount := n }) := by
  refine { sub := h.sub, entry := fun x hx => ?_, gone := h.gone }
  obtain ⟨m, hm⟩ := h.entry x hx
  by_cases hxa : x = a
  · subst hxa
    refine ⟨n, ?_⟩
    rw [Db.entry_setEntry_self, hm]
  · refine ⟨m, ?_⟩
    rw [Db.entry_setEntry_of_ne _ _ hxa, hm]

/-- An entry is taken out. -/
theorem Db.Shed.erase (h : Db.Shed gone db₀ db) (hgone : gone (db₀.entry a))
    (c : Chains (Fin 16) Addr) :
    Db.Shed gone db₀ { db with nethash := c, live := db.live.erase a } :=
  { sub := fun x hx => h.sub x (List.mem_of_mem_erase hx)
    entry := fun x hx => h.entry x (List.mem_of_mem_erase hx)
    gone := by
      intro x hx hx'
      by_cases hxa : x = a
      · exact hxa ▸ hgone
      · exact h.gone x hx fun hxs => hx' ((List.mem_erase_of_ne hxa).mpr hxs) }

theorem AdapterShed.refl (gone : Entry w → Prop) (s : Adapter w) : AdapterShed gone s s :=
  { db := .refl gone s.db
    scdb := .kept rfl rfl rfl fun _ _ h => h
    rest := rfl }

/-- The use count of an entry is lowered. -/
theorem AdapterShed.setEntry (h : AdapterShed gone s₀ s) (a : Addr) (n : BitVec 32) :
    AdapterShed gone s₀
      { s with db := s.db.setEntry a { s.db.entry a with useCount := n } } :=
  { db := h.db.setEntry a n
    scdb := match h.scdb with
      | .kept hmac hip hentry hlive => .kept hmac hip hentry hlive
      | .cleared hmac hip hentry => .cleared hmac hip hentry
    rest := by
      conv_lhs => rw [h.rest] }

theorem removeEntry_db (a : Addr) (s : Adapter w) :
    (removeEntry a s).db =
      { s.db with nethash := s.db.nethash.unlink a, live := s.db.live.erase a } := by
  unfold removeEntry
  split <;> rfl

/-- An entry is removed. -/
theorem AdapterShed.removeEntry (h : AdapterShed gone s₀ s) (hgone : gone (s₀.db.entry a)) :
    AdapterShed gone s₀ (removeEntry a s) := by
  constructor
  case db =>
    rw [removeEntry_db]
    exact h.db.erase hgone _
  case scdb =>
    by_cases hscdb : s.scdbEntry = some a
    · refine .cleared ?_ ?_ ?_ <;> simp [Nat25.removeEntry, hscdb]
    · have hkeep : Nat25.removeEntry a s = { s with db := (Nat25.removeEntry a s).db } := by
        simp [Nat25.removeEntry, hscdb]
      obtain ⟨hmac, hip, hentry', hlive⟩ | ⟨hmac, hip, hentry'⟩ := h.scdb
      · refine .kept ?_ ?_ ?_ fun x hx hx' => ?_
        · rw [hkeep]
          exact hmac
        · rw [hkeep]
          exact hip
        · rw [hkeep]
          exact hentry'
        · rw [removeEntry_db]
          refine (List.mem_erase_of_ne ?_).mpr (hlive x hx hx')
          rintro rfl
          exact hscdb (hentry'.trans hx)
      · refine .cleared ?_ ?_ ?_
        · rw [hkeep]
          exact hmac
        · rw [hkeep]
          exact hip
        · rw [hkeep]
          exact hentry'
  case rest =>
    unfold Nat25.removeEntry
    split <;> conv_lhs => rw [h.rest]

theorem Db.Forms.removeEntry (h : s.db.Forms b) {i : Fin 16} (ha : a ∈ b i) :
    (removeEntry a s).db.Forms (Function.update b i ((b i).erase a)) := by
  rw [removeEntry_db]
  have hmem {x : Addr} {k : Fin 16} :
      x ∈ Function.update b i ((b i).erase a) k ↔ x ∈ b k ∧ x ≠ a := by
    by_cases hk : k = i
    · subst hk
      rw [Function.update_self, (h.chained.nodup k).mem_erase_iff, and_comm]
    · rw [Function.update_of_ne hk]
      refine ⟨fun hx => ⟨hx, ?_⟩, fun hx => hx.1⟩
      rintro rfl
      exact hk (h.chained.disjoint hx ha)
  constructor
  case chained => exact h.chained.unlink ha
  case hashed => exact fun hx => h.hashed (hmem.mp hx).1
  case unique =>
    exact fun hx hx' => h.unique (List.mem_of_mem_erase hx) (List.mem_of_mem_erase hx')
  case mem_live =>
    intro x
    dsimp only
    rw [h.nodup.mem_erase_iff, h.mem_live]
    constructor
    · rintro ⟨hxa, k, hk⟩
      exact ⟨k, hmem.mpr ⟨hk, hxa⟩⟩
    · rintro ⟨k, hk⟩
      exact ⟨(hmem.mp hk).2, k, (hmem.mp hk).1⟩
  case nodup => exact h.nodup.erase a

/-- What is found in a database from which entries have been removed. -/
theorem Db.Shed.find_eq_some (h : Db.Shed gone db₀ db) (h₀ : db₀.Forms b) {b' : Fin 16 → List Addr}
    (hforms : db.Forms b') : db.find na = some a ↔ db₀.find na = some a ∧ a ∈ db.live := by
  rw [hforms.find_eq_some, h₀.find_eq_some]
  constructor
  · rintro ⟨ha, hna⟩
    obtain ⟨n, hn⟩ := h.entry a ha
    rw [hn] at hna
    exact ⟨⟨h.sub a ha, hna⟩, ha⟩
  · rintro ⟨⟨-, hna⟩, ha⟩
    obtain ⟨n, hn⟩ := h.entry a ha
    rw [hn]
    exact ⟨ha, hna⟩

/-! ### Lookups -/

theorem Db.lookupAndReplace_of_none (j : BitVec w) (skb : Skb) (hfind : db.find na = none) :
    db.lookupAndReplace clk j skb na = (false, skb, db) := by
  unfold lookupAndReplace
  rw [hfind]

/-- A lookup of an entry that is expired finds it, and does nothing. -/
theorem Db.lookupAndReplace_of_expired (skb : Skb) (hfind : db.find na = some a)
    (hexp : hasExpired clk j (db.entry a) = true) :
    db.lookupAndReplace clk j skb na = (true, skb, db) := by
  unfold lookupAndReplace
  rw [hfind]
  simp [hexp]

theorem Db.lookupAndReplace_of_fresh (skb : Skb) (hfind : db.find na = some a)
    (hexp : hasExpired clk j (db.entry a) = false) :
    db.lookupAndReplace clk j skb na =
      (true, skb.setMac 0 (db.entry a).macAddr,
        db.setEntry a { db.entry a with useCount := (db.entry a).useCount + 1 }) := by
  unfold lookupAndReplace
  rw [hfind]
  simp [hexp]

/-- A lookup changes no more than a use count. -/
theorem Db.lookupAndReplace_db (db : Db w) (j : BitVec w) (skb : Skb) (na : NetworkAddr) :
    (db.lookupAndReplace clk j skb na).2.2 = db ∨ ∃ a n,
      (db.lookupAndReplace clk j skb na).2.2 =
        db.setEntry a { db.entry a with useCount := n } := by
  cases hfind : db.find na with
  | none =>
    rw [lookupAndReplace_of_none clk j skb hfind]
    exact Or.inl rfl
  | some a =>
    cases hexp : hasExpired clk j (db.entry a) with
    | true =>
      rw [lookupAndReplace_of_expired clk skb hfind hexp]
      exact Or.inl rfl
    | false =>
      rw [lookupAndReplace_of_fresh clk skb hfind hexp]
      exact Or.inr ⟨a, _, rfl⟩

theorem Db.Forms.lookupAndReplace (h : db.Forms b) (j : BitVec w) (skb : Skb) (na : NetworkAddr) :
    (db.lookupAndReplace clk j skb na).2.2.Forms b ∧
      Db.Shed (fun _ => False) db (db.lookupAndReplace clk j skb na).2.2 := by
  obtain heq | ⟨a, n, heq⟩ := db.lookupAndReplace_db clk j skb na
  · rw [heq]
    exact ⟨h, .refl _ db⟩
  · rw [heq]
    exact ⟨h.setEntry a rfl, (Db.Shed.refl _ db).setEntry a n⟩

/-! ### Walks -/

/-- A visit removes the entry, or keeps it, which it may do only if `keeps`. -/
def Visits (visit : Addr → Adapter w → Adapter w) (gone : Entry w → Prop) (keeps : Prop) : Prop :=
  ∀ {s₀ s : Adapter w} {b : Fin 16 → List Addr} {i : Fin 16} {a : Addr},
    s.db.Forms b → AdapterShed gone s₀ s → a ∈ b i →
      AdapterShed gone s₀ (visit a s) ∧
        ((visit a s).db.Forms (Function.update b i ((b i).erase a)) ∨
          keeps ∧ (visit a s).db.Forms b)

theorem removeEntry_visits : Visits (w := w) removeEntry (fun _ => True) False :=
  fun hforms hshed ha => ⟨hshed.removeEntry trivial, Or.inl (hforms.removeEntry ha)⟩

theorem expireEntry_visits (j : BitVec w) :
    Visits (expireEntry clk j) (fun e => hasExpired clk j e = true) True := by
  intro s₀ s b i a hforms hshed ha
  have hlive : a ∈ s.db.live := hforms.mem_live.mpr ⟨i, ha⟩
  unfold expireEntry
  by_cases hexp : hasExpired clk j (s.db.entry a) = true
  · rw [if_pos hexp]
    have hgone : hasExpired clk j (s₀.db.entry a) = true := by
      obtain ⟨n, hn⟩ := hshed.db.entry a hlive
      rw [hn] at hexp
      exact hexp
    have hshed' := hshed.setEntry a ((s.db.entry a).useCount - 1)
    have hforms' := hforms.setEntry a
      (e := { s.db.entry a with useCount := (s.db.entry a).useCount - 1 }) rfl
    dsimp only
    split
    · exact ⟨hshed'.removeEntry hgone, Or.inl (Db.Forms.removeEntry (s := { s with
        db := s.db.setEntry a { s.db.entry a with useCount := (s.db.entry a).useCount - 1 } })
        hforms' ha)⟩
    · exact ⟨hshed', Or.inr ⟨trivial, hforms'⟩⟩
  · rw [if_neg hexp]
    exact ⟨hshed, Or.inr ⟨trivial, hforms⟩⟩

variable {visit : Addr → Adapter w → Adapter w} {keeps : Prop}

/-- A walk from the middle of a chain on. What is left of the rest are entries that were kept. -/
theorem Visits.walkChain (hv : Visits visit gone keeps) {i : Fin 16} {l pre : List Addr} {n : ℕ}
    (hforms : s.db.Forms b) (hshed : AdapterShed gone s₀ s) (hb : b i = pre ++ l)
    (hn : l.length ≤ n) :
    ∃ l', (∀ x ∈ l', x ∈ l ∧ keeps) ∧
      (walkChain visit n l.head? s).db.Forms (Function.update b i (pre ++ l')) ∧
      AdapterShed gone s₀ (walkChain visit n l.head? s) := by
  induction l generalizing s b pre n with
  | nil =>
    refine ⟨[], by simp, ?_⟩
    have hend : Nat25.walkChain visit n none s = s := by cases n <;> rfl
    rw [List.head?_nil, hend, ← hb, Function.update_eq_self]
    exact ⟨hforms, hshed⟩
  | cons a l ih =>
    have hseg := hforms.chained.seg i
    have hnodup := hforms.chained.nodup i
    rw [hb] at hseg hnodup
    cases n with
    | zero => exact absurd hn (by simp)
    | succ n =>
      rw [List.head?_cons, Nat25.walkChain, hseg.next_eq]
      have hn' := Nat.le_of_succ_le_succ hn
      have ha : a ∈ b i := by simp [hb]
      obtain ⟨hshed', hforms' | ⟨hkeeps, hforms'⟩⟩ := hv hforms hshed ha
      · -- removed: the chain is shorter
        have hapre : a ∉ pre := fun hx =>
          (List.nodup_append.mp hnodup).2.2 a hx a List.mem_cons_self rfl
        have herase : (b i).erase a = pre ++ l := by
          rw [hb, List.erase_append_right _ hapre, List.erase_cons_head]
        rw [herase] at hforms'
        obtain ⟨l', hl', hforms'', hshed''⟩ :=
          ih hforms' hshed' (Function.update_self ..) hn'
        rw [Function.update_idem] at hforms''
        exact ⟨l', fun x hx => ⟨List.mem_cons_of_mem a (hl' x hx).1, (hl' x hx).2⟩, hforms'',
          hshed''⟩
      · -- kept: the walk goes on behind it
        have hb' : b i = (pre ++ [a]) ++ l := by rw [hb, List.append_assoc, List.singleton_append]
        obtain ⟨l', hl', hforms'', hshed''⟩ := ih hforms' hshed' hb' hn'
        rw [List.append_assoc, List.singleton_append] at hforms''
        refine ⟨a :: l', ?_, hforms'', hshed''⟩
        rw [List.forall_mem_cons]
        exact ⟨⟨List.mem_cons_self, hkeeps⟩,
          fun x hx => ⟨List.mem_cons_of_mem a (hl' x hx).1, (hl' x hx).2⟩⟩

/-- A walk over the buckets. -/
theorem Visits.walkBuckets (hv : Visits visit gone keeps) (hforms : s.db.Forms b) :
    ∃ b', (walkBuckets visit s).db.Forms b' ∧ AdapterShed gone s (walkBuckets visit s) ∧
      ∀ i, ∀ x ∈ b' i, keeps := by
  -- the buckets of `is` are still to be walked along
  have hfold (is : List (Fin 16)) : ∀ {t : Adapter w} {b : Fin 16 → List Addr},
      t.db.Forms b → AdapterShed gone s t →
      ∃ b', (is.foldl (fun t i =>
          Nat25.walkChain visit t.db.live.length (t.db.nethash.head i) t) t).db.Forms b' ∧
        AdapterShed gone s (is.foldl (fun t i =>
          Nat25.walkChain visit t.db.live.length (t.db.nethash.head i) t) t) ∧
        ∀ i, ∀ x ∈ b' i, x ∈ b i ∧ (i ∈ is → keeps) := by
    induction is with
    | nil => exact fun hforms hshed => ⟨_, hforms, hshed, fun i x hx => ⟨hx, nofun⟩⟩
    | cons k is ih =>
      intro t b hforms hshed
      have hhead : t.db.nethash.head k = (b k).head? := by
        have hseg := hforms.chained.seg k
        cases hk : b k with
        | nil =>
          rw [hk] at hseg
          exact hseg
        | cons x l =>
          rw [hk] at hseg
          exact hseg.1
      obtain ⟨l', hl', hforms', hshed'⟩ :=
        hv.walkChain hforms hshed (i := k) (List.nil_append _).symm (hforms.length_le k)
      rw [List.foldl_cons, hhead]
      obtain ⟨b', hforms'', hshed'', hb'⟩ := ih hforms' hshed'
      refine ⟨b', hforms'', hshed'', fun i x hx => ?_⟩
      obtain ⟨hx', hkeeps⟩ := hb' i x hx
      by_cases hik : i = k
      · subst hik
        rw [Function.update_self, List.nil_append] at hx'
        exact ⟨(hl' x hx').1, fun _ => (hl' x hx').2⟩
      · rw [Function.update_of_ne hik] at hx'
        refine ⟨hx', fun hi => hkeeps ?_⟩
        exact (List.mem_cons.mp hi).resolve_left hik
  obtain ⟨b', hforms', hshed', hb'⟩ := hfold (List.finRange 16) hforms (AdapterShed.refl gone s)
  exact ⟨b', hforms', hshed', fun i x hx => (hb' i x hx).2 (List.mem_finRange i)⟩

-- what a walk does is said by `Visits.walkBuckets`
attribute [irreducible] walkBuckets

/-- Expiry removes expired entries only. -/
theorem Db.Forms.expire (h : s.db.Forms b) (j : BitVec w) :
    (∃ b', (nat25DbExpire clk j s).db.Forms b') ∧
      AdapterShed (fun e => hasExpired clk j e = true) s (nat25DbExpire clk j s) := by
  obtain ⟨b', hforms, hshed, -⟩ := Visits.walkBuckets (expireEntry_visits clk j) h
  exact ⟨⟨b', hforms⟩, hshed⟩

/-- A cleanup removes all entries. -/
theorem Db.Forms.cleanup (h : s.db.Forms b) :
    (∃ b', (nat25DbCleanup s).db.Forms b') ∧ AdapterShed (fun _ => True) s (nat25DbCleanup s) ∧
      (nat25DbCleanup s).db.live = [] := by
  rw [nat25DbCleanup]
  obtain ⟨b', hforms, hshed, hempty⟩ := Visits.walkBuckets (removeEntry_visits (w := w)) h
  generalize walkBuckets Nat25.removeEntry s = t at *
  refine ⟨⟨b', hforms⟩, hshed, List.eq_nil_iff_forall_not_mem.mpr fun a ha => ?_⟩
  obtain ⟨i, hi⟩ := hforms.mem_live.mp ha
  exact hempty i a hi

end Rtl88x2cu.Nat25
