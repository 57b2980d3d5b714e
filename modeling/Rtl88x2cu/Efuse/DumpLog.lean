import Rtl88x2cu.Efuse.Parser
import Rtl88x2cu.Lib.Run

/-!
# Dumping the logical EFUSE

`mac_dump_log_efuse` (`phl/hal/mac/mac_ac/efuse.c`) reads the physical EFUSE and parses it. While it
does so the state of the EFUSE procedures is `MAC_EFUSE_LOG_MAP`, and a procedure that finds the
state other than `MAC_EFUSE_IDLE` is refused as busy.

`idle_iff` says in which runs the state is `MAC_EFUSE_IDLE` after every call, and `stuck_run` that a
call which leaves it otherwise is the last one that is not refused.
-/

namespace Rtl88x2cu.Efuse

open Bytes (Byte)

/-! ## Model -/

/-- The return codes of `mac_dump_log_efuse`. -/
inductive MacRet where
  | success
  | noFw
  | procBusy
  | procErr
  | efuseBank
  | nPtr
  | bufAlloc
  | efuseRead
  | efuseParse
  deriving DecidableEq, Repr

/-- `MAC_EFUSE_IDLE` and the other values of `sm.efuse`. -/
inductive EfuseState where
  | idle
  | phy
  | logMap
  | logMask
  deriving DecidableEq, Repr

/-- `enum mac_efuse_parser_cfg`. -/
inductive ParserCfg where
  | map
  | mask
  deriving DecidableEq, Repr

/-- The byte written to the logical map for a byte of the physical one. -/
def ParserCfg.conv : ParserCfg → Byte → Byte
  | map, b => b
  | mask, _ => 0x00

/-- `enum mac_efuse_read_cfg`. -/
inductive ReadCfg where
  | auto
  | drv
  | fw
  deriving DecidableEq, Repr

/-- `enum mac_intf`. -/
inductive Intf where
  | usb
  | sdio
  | pcie
  | invalid
  deriving DecidableEq, Repr

/-- The fields of `struct mac_hw_info` for the EFUSE. -/
structure HwInfo where
  intf : Intf
  efuseSize : ℕ
  logEfuseSize : ℕ
  limitEfuseSizePcie : ℕ
  limitEfuseSizeUsb : ℕ
  limitEfuseSizeSdio : ℕ
  wlEfuseStartAddr : ℕ
  deriving DecidableEq, Repr

/-- The fields of `struct mac_adapter` that `mac_dump_log_efuse` uses: `hw_info`, the state machine
and `efuse_param`. -/
structure MacAdapter where
  hwInfo : Option HwInfo
  efuse : EfuseState
  /-- `sm.fwdl` is `MAC_FWDL_INIT_RDY`. -/
  fwdlInitRdy : Bool
  efuseMap : Option Map
  logEfuseMap : Option Map
  efuseMapValid : Bool
  logEfuseMapValid : Bool
  efuseEnd : ℕ

/-- What the hardware and the allocator do during a call. -/
structure Env where
  /-- The reads of `REG_LDO_EFUSE_CTRL + 1`, before and after the bank is written. -/
  ldoCtrl : Byte × Byte
  mallocLog : Bool
  mallocPhy : Bool
  mallocDump : Bool
  mallocMap : Bool
  /-- `REG_EFUSE_CTRL` in each turn of the loop that waits for the byte at an address. -/
  efuseCtrl : ℕ → ℕ → BitVec 32

/-- `efuse_proc_ck`. -/
def efuseProcCk (a : MacAdapter) : MacRet :=
  if a.efuse ≠ .idle then .procBusy else .success

/-- `cnv_efuse_state`. -/
def cnvEfuseState (a : MacAdapter) (dest : EfuseState) : MacRet × MacAdapter :=
  if a.efuse = dest then (.procErr, a)
  else if dest ≠ .idle ∧ a.efuse ≠ .idle then (.procErr, a)
  else (.success, { a with efuse := dest })

/-- `switch_efuse_bank` to `MAC_EFUSE_BANK_WIFI`. -/
def switchEfuseBank (env : Env) : MacRet :=
  if env.ldoCtrl.1 &&& 3 = 0 then .success
  else if env.ldoCtrl.2 &&& 3 ≠ 0 then .efuseBank
  else .success

/-- `bank_efuse_info_init`: both maps have to be read again. -/
def bankEfuseInfoInit (a : MacAdapter) : MacRet × MacAdapter :=
  match a.hwInfo with
  | none => (.nPtr, a)
  | some _ => (.success, { a with efuseMapValid := false, logEfuseMapValid := false })

/-- The part of `efuse_map_init` for one map: it is allocated, unless it is there. -/
def mapInit (map : Option Map) (malloc : Bool) : MacRet × Option Map :=
  match map with
  | some map => (.success, some map)
  | none => if malloc then (.success, some fun _ => 0) else (.bufAlloc, none)

/-- `efuse_map_init` for `EFUSE_MAP_SEL_LOG`. -/
def efuseMapInitLog (env : Env) (a : MacAdapter) : MacRet × MacAdapter :=
  ((mapInit a.logEfuseMap env.mallocLog).1,
    { a with logEfuseMap := (mapInit a.logEfuseMap env.mallocLog).2 })

/-- `efuse_map_init` for `EFUSE_MAP_SEL_PHY_WL`. -/
def efuseMapInitPhyWl (env : Env) (a : MacAdapter) : MacRet × MacAdapter :=
  ((mapInit a.efuseMap env.mallocPhy).1,
    { a with efuseMap := (mapInit a.efuseMap env.mallocPhy).2 })

/-- The loop that waits for `BIT_EF_FLAG`, with `cnt` turns left. -/
def waitEfFlag (reads : ℕ → BitVec 32) : ℕ → ℕ → Option Byte
  | 0, _ => none
  | cnt + 1, i =>
    if cnt = 0 then none
    else if (reads i).getLsbD 31 then some ((reads i).setWidth 8)
    else waitEfFlag reads cnt (i + 1)

/-- `read_hw_efuse`, from the offset 0. -/
def readHwEfuse (env : Env) (hwInfo : HwInfo) (size : ℕ) : Option (List Byte) :=
  (List.range size).mapM fun i =>
    waitEfFlag (env.efuseCtrl (hwInfo.wlEfuseStartAddr + i)) 1000000 0

/-- `dump_efuse_drv`, which is `proc_dump_efuse`. -/
def procDumpEfuse (env : Env) (hwInfo : HwInfo) (a : MacAdapter) : MacRet × MacAdapter :=
  if a.efuseMapValid then (.success, a)
  else if !env.mallocDump then (.bufAlloc, a)
  else
    match readHwEfuse env hwInfo hwInfo.efuseSize with
    | none => (.efuseRead, a)
    | some map =>
      match a.efuseMap with
      | none => (.success, a)
      | some _ =>
        (.success, { a with efuseMap := some fun i => map.getD i 0, efuseMapValid := true })

/-- `eeprom_parser`, with its `prtct_efuse_size` of 124. -/
def eepromParser (hwInfo : HwInfo) (cfg : ParserCfg) (phy : Map) : Option (ℕ × Map) :=
  parse ⟨hwInfo.efuseSize - 124, hwInfo.logEfuseSize⟩ cfg.conv phy

/-- The number of bytes that `query_status_map` copies out for `MAC_DUMP_LOGICAL_EFUSE`. -/
def queryMapSize (hwInfo : HwInfo) (isLimit : Bool) : ℕ :=
  if !isLimit then hwInfo.logEfuseSize
  else
    match hwInfo.intf with
    | .pcie => hwInfo.limitEfuseSizePcie
    | .usb => hwInfo.limitEfuseSizeUsb
    | .sdio => hwInfo.limitEfuseSizeSdio
    | .invalid => 0

/-- `mac_dump_log_efuse` from where the logical map has to be filled, up to `query_status_map`. -/
def fillLogMap (env : Env) (hwInfo : HwInfo) (cfg : ParserCfg) (a : MacAdapter) :
    MacRet × MacAdapter :=
  if a.logEfuseMapValid then (.success, a)
  else
    match procDumpEfuse env hwInfo a with
    | (.success, a) =>
      match a.efuseMapValid, a.efuseMap with
      | true, some phy =>
        if !env.mallocMap then (.bufAlloc, a)
        else
          match eepromParser hwInfo cfg phy with
          | none => (.efuseParse, a)
          | some (efuseEnd, map) =>
            (.success, { a with
              efuseEnd := efuseEnd
              logEfuseMap := some map
              logEfuseMapValid := true })
      | _, _ => (.success, a)
    | (ret, a) => (ret, a)

/-- Back to `MAC_EFUSE_IDLE`, with the return code of the conversion where that fails. -/
def toIdle (ret : MacRet) (a : MacAdapter) : MacRet × MacAdapter :=
  match cnvEfuseState a .idle with
  | (.success, a) => (ret, a)
  | (stat, a) => (stat, a)

/-- `mac_dump_log_efuse`. The last component is what the caller's buffer is filled with. -/
def macDumpLogEfuse (parserCfg : ParserCfg) (cfg : ReadCfg) (isLimit : Bool) (env : Env)
    (a : MacAdapter) : MacRet × MacAdapter × Option (List Byte) :=
  if cfg = .fw ∧ !a.fwdlInitRdy then (.noFw, a, none)
  else if efuseProcCk a ≠ .success then (efuseProcCk a, a, none)
  else
    match cnvEfuseState a .logMap with
    | (.success, a) =>
      if switchEfuseBank env ≠ .success then
        let r := toIdle (switchEfuseBank env) a
        (r.1, r.2, none)
      else
        -- these three return without a conversion
        match bankEfuseInfoInit a, a.hwInfo with
        | (.success, a), some hwInfo =>
          match efuseMapInitLog env a with
          | (.success, a) =>
            match efuseMapInitPhyWl env a with
            | (.success, a) =>
              match fillLogMap env hwInfo parserCfg a with
              | (.success, a) =>
                let size := queryMapSize hwInfo isLimit
                let out := (List.range size).map (a.logEfuseMap.getD erased)
                let r := toIdle .success a
                (r.1, r.2, some out)
              | (ret, a) =>
                let r := toIdle ret a
                (r.1, r.2, none)
            | (ret, a) => (ret, a, none)
          | (ret, a) => (ret, a, none)
        | (ret, a), _ => (ret, a, none)
    | (ret, a) => (ret, a, none)

/-- A call, or a firmware download or a new power cycle between the calls. -/
inductive Op where
  | dump (parserCfg : ParserCfg) (cfg : ReadCfg) (isLimit : Bool) (env : Env)
  | fwdl (initRdy : Bool)

def step (a : MacAdapter) : Op → Option MacAdapter
  | .dump parserCfg cfg isLimit env => some (macDumpLogEfuse parserCfg cfg isLimit env a).2.1
  | .fwdl initRdy => some { a with fwdlInitRdy := initRdy }

/-- `struct mac_adapter` when the driver starts, with `MAC_EFUSE_IDLE` and no maps. -/
def initMacAdapter (hwInfo : Option HwInfo) : MacAdapter where
  hwInfo := hwInfo
  efuse := .idle
  fwdlInitRdy := false
  efuseMap := none
  logEfuseMap := none
  efuseMapValid := false
  logEfuseMapValid := false
  efuseEnd := 0

/-! ## The state after a call -/

section

variable (env : Env) (hwInfo : HwInfo)

theorem toIdle_of_ne {a : MacAdapter} (h : a.efuse ≠ .idle) (ret : MacRet) :
    toIdle ret a = (ret, { a with efuse := .idle }) := by
  simp [toIdle, cnvEfuseState, h]

theorem mapInit_cases (map : Option Map) (malloc : Bool) :
    ((map.isSome ∨ malloc = true) ∧ ∃ m, mapInit map malloc = (.success, some m)) ∨
      (¬ (map.isSome ∨ malloc = true) ∧ mapInit map malloc = (.bufAlloc, none)) := by
  cases map <;> cases malloc <;> simp [mapInit]

theorem procDumpEfuse_efuse (a : MacAdapter) :
    (procDumpEfuse env hwInfo a).2.efuse = a.efuse := by
  unfold procDumpEfuse
  grind

theorem fillLogMap_efuse (cfg : ParserCfg) (a : MacAdapter) :
    (fillLogMap env hwInfo cfg a).2.efuse = a.efuse := by
  have hdump := procDumpEfuse_efuse env hwInfo a
  unfold fillLogMap
  grind

end

/-- Whether a call comes back to `MAC_EFUSE_IDLE`: if it gets past the switch of the bank, there is
a `hw_info`, and each of the two maps is there or there is memory for it. -/
def ComesBack (a : MacAdapter) (cfg : ReadCfg) (env : Env) : Prop :=
  ¬ (cfg = .fw ∧ !a.fwdlInitRdy) → switchEfuseBank env = .success →
    a.hwInfo.isSome ∧ (a.logEfuseMap.isSome ∨ env.mallocLog = true) ∧
      (a.efuseMap.isSome ∨ env.mallocPhy = true)

/-- A call from `MAC_EFUSE_IDLE` ends there if and only if none of the three exits without a
conversion is taken. -/
theorem macDumpLogEfuse_idle_iff {a : MacAdapter} (hidle : a.efuse = .idle) (parserCfg : ParserCfg)
    (cfg : ReadCfg) (isLimit : Bool) (env : Env) :
    (macDumpLogEfuse parserCfg cfg isLimit env a).2.1.efuse = .idle ↔ ComesBack a cfg env := by
  have hck : efuseProcCk a = .success := by simp [efuseProcCk, hidle]
  have hcnv : cnvEfuseState a .logMap = (.success, { a with efuse := .logMap }) := by
    simp [cnvEfuseState, hidle]
  unfold macDumpLogEfuse ComesBack
  by_cases hfw : cfg = .fw ∧ !a.fwdlInitRdy
  · simp [hfw, hidle]
  · simp only [hfw, if_false, hck, hcnv, not_true, ne_eq, not_false_iff, true_imp_iff]
    by_cases hbank : switchEfuseBank env = .success
    · simp only [hbank, not_true, if_false, true_imp_iff]
      cases hhw : a.hwInfo with
      | none => simp [bankEfuseInfoInit]
      | some hwInfo =>
        simp only [bankEfuseInfoInit, efuseMapInitLog, efuseMapInitPhyWl, Option.isSome_some,
          true_and]
        obtain ⟨hlog, m, hm⟩ | ⟨hlog, hm⟩ := mapInit_cases a.logEfuseMap env.mallocLog
        · obtain ⟨hphy, m', hm'⟩ | ⟨hphy, hm'⟩ := mapInit_cases a.efuseMap env.mallocPhy
          · -- both maps are there: whatever fails from here on converts the state back
            simp only [hm, hm', hlog, hphy, and_self, iff_true]
            split
            · next b hb =>
              have hkeep := congrArg (fun r => r.2.efuse) hb
              simp only [fillLogMap_efuse] at hkeep
              simp [toIdle_of_ne, ← hkeep]
            · next ret b _ hb =>
              have hkeep := congrArg (fun r => r.2.efuse) hb
              simp only [fillLogMap_efuse] at hkeep
              simp [toIdle_of_ne, ← hkeep]
          · simp [hm, hm', hlog, hphy]
        · simp [hm, hlog]
    · simp [hbank, toIdle_of_ne]

/-- The condition on a call of a run. -/
def OpComesBack (a : MacAdapter) : Op → Prop
  | .dump _ cfg _ env => ComesBack a cfg env
  | .fwdl _ => True

/-- The state is `MAC_EFUSE_IDLE` after every call of a run if and only if no call takes one of the
exits without a conversion: the one for a missing `hw_info`, and the two for a map that cannot be
allocated. -/
theorem idle_iff (hwInfo : Option HwInfo) (ops : List Op) :
    (∀ pre t, pre <+: ops → run step (initMacAdapter hwInfo) pre = some t → t.efuse = .idle) ↔
      Guarded step OpComesBack (initMacAdapter hwInfo) ops := by
  refine run_inv_iff_guarded (fun a : MacAdapter => a.efuse = .idle) ?_ ?_ ops rfl
  · intro a op h
    cases op <;> cases h
  · intro a op t hidle h
    cases op with
    | dump parserCfg cfg isLimit env =>
      obtain rfl := Option.some.inj h
      exact macDumpLogEfuse_idle_iff hidle parserCfg cfg isLimit env
    | fwdl initRdy =>
      obtain rfl := Option.some.inj h
      exact iff_of_true hidle trivial

/-- The sizes of `mac8822c_hw_info`, with a USB interface. -/
def mac8822cHwInfo : HwInfo where
  intf := .usb
  efuseSize := 1216
  logEfuseSize := 768
  limitEfuseSizePcie := 1152
  limitEfuseSizeUsb := 1152
  limitEfuseSizeSdio := 1184
  wlEfuseStartAddr := 0

/-- Memory for the physical map is short, or for nothing; every byte is read as erased at once. -/
def shortEnv (mallocPhy : Bool) : Env where
  ldoCtrl := (0, 0)
  mallocLog := true
  mallocPhy := mallocPhy
  mallocDump := true
  mallocMap := true
  efuseCtrl := fun _ _ => 0x800000ff

/-- A dump for which the physical map cannot be allocated is not followed by a dump that is. -/
theorem shortEnv_stuck :
    ¬ (∀ pre t, pre <+: [Op.dump .map .drv false (shortEnv false)] →
        run step (initMacAdapter (some mac8822cHwInfo)) pre = some t → t.efuse = .idle) ∧
      ∃ t, run step (initMacAdapter (some mac8822cHwInfo)) [.dump .map .drv false (shortEnv false)]
          = some t ∧
        (macDumpLogEfuse .map .drv false (shortEnv true) t).1 = .procBusy := by
  refine ⟨fun h => ?_, _, rfl, by decide⟩
  exact absurd (h _ _ (List.prefix_refl _) rfl) (by decide)

/-- Once the state is not `MAC_EFUSE_IDLE` it stays so, and every call is refused. -/
theorem stuck_run {a t : MacAdapter} {ops : List Op} (h : a.efuse ≠ .idle)
    (hrun : run step a ops = some t) (parserCfg : ParserCfg) (cfg : ReadCfg) (isLimit : Bool)
    (env : Env) :
    t.efuse ≠ .idle ∧ (macDumpLogEfuse parserCfg cfg isLimit env t).1 ≠ .success := by
  have hrefused (b : MacAdapter) (hb : b.efuse ≠ .idle) (parserCfg cfg isLimit env) :
      (macDumpLogEfuse parserCfg cfg isLimit env b).1 ≠ .success ∧
        (macDumpLogEfuse parserCfg cfg isLimit env b).2.1 = b := by
    unfold macDumpLogEfuse
    split
    · simp
    · simp [efuseProcCk, hb]
  have hkeep : t.efuse ≠ .idle := by
    refine run_preserves (fun b => b.efuse ≠ .idle) (fun b op c hb _ hc => ?_) h
      (guarded_of_forall (fun _ _ => trivial) a) hrun
    cases op with
    | dump parserCfg cfg isLimit env =>
      obtain rfl := Option.some.inj hc
      rw [(hrefused b hb _ _ _ _).2]
      exact hb
    | fwdl initRdy =>
      obtain rfl := Option.some.inj hc
      exact hb
  exact ⟨hkeep, (hrefused t hkeep _ _ _ _).1⟩

end Rtl88x2cu.Efuse
