import Mathlib.Algebra.Order.Ring.Nat
import Mathlib.Data.List.Induction
import Mathlib.Tactic.Common

/-!
# The throughput of a direction

`phl_update_rx_stats` and `phl_update_tx_stats` count the bytes of a packet and compute the
throughput of the direction when enough time has passed since the last calculation;
`phl_reset_rx_stats` and `phl_reset_tx_stats` clear the counters (`phl/phl_rx.c`, `phl/phl_tx.c`).
The two directions have the same code on different fields of `struct rtw_stats`.

What has really been transferred is kept in a `Ledger` next to the statistics, in natural numbers.
-/

namespace Rtl88x2cu.Trx.Stats

/-! ## Model -/

/-- The fields of `struct rtw_stats` for one direction, with its `struct rtw_stats_tp`. -/
structure DirStats where
  byteUni : BitVec 64 := 0
  byteTotal : BitVec 64 := 0
  tpKbits : BitVec 32 := 0
  lastTimeMs : BitVec 32 := 0
  lastCalcBits : BitVec 64 := 0
  lastCalcTimeMs : BitVec 32 := 0
  deriving DecidableEq, Repr

/-- `struct rtw_stats`. -/
structure RtwStats where
  tx : DirStats := {}
  rx : DirStats := {}
  txreqNum : BitVec 32 := 0
  deriving DecidableEq, Repr

/-- What an update reads of its packet, and the time it reads. -/
structure Packet where
  len : BitVec 64
  bc : BitVec 8
  mc : BitVec 8
  curTime : BitVec 32
  deriving DecidableEq, Repr

/-- `phl_reset_rx_stats` and `phl_reset_tx_stats`. They clear `last_calc_time_ms` twice, and leave
`last_calc_bits` alone. -/
def reset (s : DirStats) : DirStats :=
  { s with
    byteUni := 0
    byteTotal := 0
    tpKbits := 0
    lastTimeMs := 0
    lastCalcTimeMs := 0 }

/-- The packet counts for `rx_byte_uni` or `tx_byte_uni`. -/
def Packet.isUni (p : Packet) : Bool := p.bc = 0 ∧ p.mc = 0

/-- The first part of an update: the packet is counted. -/
def count (s : DirStats) (p : Packet) : DirStats :=
  { s with
    lastTimeMs := p.curTime
    byteTotal := s.byteTotal + p.len
    byteUni := if p.isUni then s.byteUni + p.len else s.byteUni }

/-- `diff_t`. -/
def diffT (curTime lastCalcTimeMs : BitVec 32) : BitVec 32 :=
  if curTime ≥ lastCalcTimeMs then curTime - lastCalcTimeMs
  else 0xffffffff#32 - lastCalcTimeMs + curTime + 1#32

/-- `diff_bits`. -/
def diffBits (s : DirStats) : BitVec 64 := s.byteUni * 8#64 - s.lastCalcBits

/-- There has been no calculation yet. -/
def DirStats.Fresh (s : DirStats) : Prop := s.lastCalcTimeMs = 0#32 ∨ s.lastCalcBits = 0#64

instance (s : DirStats) : Decidable s.Fresh := inferInstanceAs (Decidable (_ ∨ _))

/-- The time for a calculation has come. -/
def DirStats.Due (calcDiffMs : BitVec 32) (s : DirStats) (curTime : BitVec 32) : Prop :=
  calcDiffMs < diffT curTime s.lastCalcTimeMs ∧ s.byteUni ≠ 0#64

instance (calcDiffMs : BitVec 32) (s : DirStats) (curTime : BitVec 32) :
    Decidable (s.Due calcDiffMs curTime) := inferInstanceAs (Decidable (_ ∧ _))

/-- The second part of an update, on the counted bytes. -/
def calcTp (calcDiffMs : BitVec 32) (s : DirStats) (curTime : BitVec 32) : DirStats :=
  if s.Fresh then
    { s with
      lastCalcTimeMs := s.lastTimeMs
      lastCalcBits := s.byteUni * 8#64 }
  else if s.Due calcDiffMs curTime then
    { s with
      tpKbits := (diffBits s / (diffT curTime s.lastCalcTimeMs).setWidth 64).setWidth 32
      lastCalcBits := s.byteUni * 8#64
      lastCalcTimeMs := curTime }
  else
    s

/-- `phl_update_rx_stats` and `phl_update_tx_stats`, on the fields of their direction. -/
def update (calcDiffMs : BitVec 32) (s : DirStats) (p : Packet) : DirStats :=
  calcTp calcDiffMs (count s p) p.curTime

/-- `RXTP_CALC_DIFF_MS`. -/
def rxtpCalcDiffMs : BitVec 32 := 1000#32

/-- `TXTP_CALC_DIFF_MS`. -/
def txtpCalcDiffMs : BitVec 32 := 1000#32

/-- `phl_update_rx_stats`; `mdata.pktlen` has 16 bits. -/
def phlUpdateRxStats (s : RtwStats) (pktlen : BitVec 16) (bc mc : BitVec 8)
    (curTime : BitVec 32) : RtwStats :=
  { s with rx := update rxtpCalcDiffMs s.rx ⟨pktlen.setWidth 64, bc, mc, curTime⟩ }

/-- `phl_update_tx_stats`; `total_len` has 32 bits. -/
def phlUpdateTxStats (s : RtwStats) (totalLen : BitVec 32) (bc mc : BitVec 8)
    (curTime : BitVec 32) : RtwStats :=
  { s with
    txreqNum := s.txreqNum + 1
    tx := update txtpCalcDiffMs s.tx ⟨totalLen.setWidth 64, bc, mc, curTime⟩ }

/-- `phl_reset_rx_stats`. -/
def phlResetRxStats (s : RtwStats) : RtwStats := { s with rx := reset s.rx }

/-- `phl_reset_tx_stats`. -/
def phlResetTxStats (s : RtwStats) : RtwStats := { s with tx := reset s.tx }

/-- A call of one of the four functions. -/
inductive Call where
  | updateRx (pktlen : BitVec 16) (bc mc : BitVec 8) (curTime : BitVec 32)
  | updateTx (totalLen : BitVec 32) (bc mc : BitVec 8) (curTime : BitVec 32)
  | resetRx
  | resetTx
  deriving DecidableEq, Repr

def step (s : RtwStats) : Call → RtwStats
  | .updateRx pktlen bc mc curTime => phlUpdateRxStats s pktlen bc mc curTime
  | .updateTx totalLen bc mc curTime => phlUpdateTxStats s totalLen bc mc curTime
  | .resetRx => phlResetRxStats s
  | .resetTx => phlResetTxStats s

/-- The statistics after some calls; those of a station and of the driver start cleared. -/
def calls (cs : List Call) : RtwStats := cs.foldl step {}

/-! ## One direction -/

/-- A direction. -/
inductive Dir where
  | rx
  | tx
  deriving DecidableEq, Repr

def Dir.of : Dir → RtwStats → DirStats
  | .rx, s => s.rx
  | .tx, s => s.tx

def Dir.calcDiffMs : Dir → BitVec 32
  | .rx => rxtpCalcDiffMs
  | .tx => txtpCalcDiffMs

/-- What a call does to a direction: a packet is counted, or the counters are reset. -/
def Dir.event : Dir → Call → Option (Option Packet)
  | .rx, .updateRx pktlen bc mc curTime => some (some ⟨pktlen.setWidth 64, bc, mc, curTime⟩)
  | .tx, .updateTx totalLen bc mc curTime => some (some ⟨totalLen.setWidth 64, bc, mc, curTime⟩)
  | .rx, .resetRx => some none
  | .tx, .resetTx => some none
  | _, _ => none

/-- The events of a direction. -/
def Dir.events (d : Dir) (cs : List Call) : List (Option Packet) := cs.filterMap d.event

def dirStep (calcDiffMs : BitVec 32) (s : DirStats) : Option Packet → DirStats
  | some p => update calcDiffMs s p
  | none => reset s

/-- The statistics of a direction are those of its own events. -/
theorem of_calls (d : Dir) (cs : List Call) :
    d.of (calls cs) = (d.events cs).foldl (dirStep d.calcDiffMs) {} := by
  have hrun : ∀ s : RtwStats,
      d.of (cs.foldl step s) = (d.events cs).foldl (dirStep d.calcDiffMs) (d.of s) := by
    induction cs with
    | nil => exact fun s => rfl
    | cons c cs ih =>
      intro s
      rw [List.foldl_cons, ih]
      -- a call of the other direction leaves the fields of this one alone
      cases d <;> cases c <;> rfl
  have hinit : d.of {} = {} := by cases d <;> rfl
  rw [calls, hrun, hinit]

/-! ## What has been transferred -/

/-- What an observer counts: the unicast bytes since the last reset, the unicast bytes since the
last calculation, and the time of the last calculation. -/
structure Ledger where
  sinceReset : ℕ := 0
  sinceCalc : ℕ := 0
  calcTime : BitVec 32 := 0
  deriving DecidableEq, Repr

/-- The bytes of a packet that are counted as unicast. -/
def Packet.uni (p : Packet) : ℕ := if p.isUni then p.len.toNat else 0

/-- The observer sees the packets and resets, and when the statistics take a new base. -/
def Ledger.step (calcDiffMs : BitVec 32) (s : DirStats) (l : Ledger) : Option Packet → Ledger
  | some p =>
    if (count s p).Fresh ∨ (count s p).Due calcDiffMs p.curTime then
      { sinceReset := l.sinceReset + p.uni, sinceCalc := 0, calcTime := p.curTime }
    else
      { l with sinceReset := l.sinceReset + p.uni, sinceCalc := l.sinceCalc + p.uni }
  | none => { l with sinceReset := 0 }

/-- The statistics and the ledger after some events. -/
def observe (calcDiffMs : BitVec 32) (es : List (Option Packet)) : DirStats × Ledger :=
  es.foldl (fun x e => (dirStep calcDiffMs x.1 e, x.2.step calcDiffMs x.1 e)) ({}, {})

theorem observe_concat (calcDiffMs : BitVec 32) (es : List (Option Packet)) (e : Option Packet) :
    observe calcDiffMs (es ++ [e]) =
      (dirStep calcDiffMs (observe calcDiffMs es).1 e,
        (observe calcDiffMs es).2.step calcDiffMs (observe calcDiffMs es).1 e) := by
  rw [observe, List.foldl_append]
  rfl

theorem observe_fst (calcDiffMs : BitVec 32) (es : List (Option Packet)) :
    (observe calcDiffMs es).1 = es.foldl (dirStep calcDiffMs) {} := by
  induction es using List.reverseRecOn with
  | nil => rfl
  | append_singleton es e ih => rw [observe_concat, ih, List.foldl_append]; rfl

/-! ## The counters agree with the ledger -/

/-- The counter of unicast bytes follows the ledger modulo `2 ^ 64`. So does the base of the
calculation, as long as there is one: a reset leaves the old number of bits behind, but then
`last_calc_time_ms` is zero and the next update takes a new base. -/
structure Agrees (s : DirStats) (l : Ledger) : Prop where
  byteUni : s.byteUni = BitVec.ofNat 64 l.sinceReset
  base : s.lastCalcTimeMs ≠ 0#32 → l.sinceCalc ≤ l.sinceReset ∧
    s.lastCalcBits = BitVec.ofNat 64 (8 * (l.sinceReset - l.sinceCalc)) ∧
    s.lastCalcTimeMs = l.calcTime

theorem count_byteUni {s : DirStats} {n : ℕ} (h : s.byteUni = BitVec.ofNat 64 n) (p : Packet) :
    (count s p).byteUni = BitVec.ofNat 64 (n + p.uni) := by
  unfold count Packet.uni
  cases p.isUni with
  | true => simp [h, BitVec.ofNat_add]
  | false => simp [h]

/-- The bits of a number of bytes. -/
theorem ofNat_mul_eight (n : ℕ) : BitVec.ofNat 64 n * 8#64 = BitVec.ofNat 64 (8 * n) := by
  rw [Nat.mul_comm]
  exact (BitVec.ofNat_mul_ofNat n 8)

/-- What the second part of an update does. -/
theorem calcTp_cases (calcDiffMs : BitVec 32) (s : DirStats) (curTime : BitVec 32) :
    ((s.Fresh ∨ s.Due calcDiffMs curTime) ∧
      (calcTp calcDiffMs s curTime).byteUni = s.byteUni ∧
      (calcTp calcDiffMs s curTime).lastCalcBits = s.byteUni * 8#64 ∧
      ((calcTp calcDiffMs s curTime).lastCalcTimeMs = s.lastTimeMs ∨
        (calcTp calcDiffMs s curTime).lastCalcTimeMs = curTime)) ∨
    (¬ (s.Fresh ∨ s.Due calcDiffMs curTime) ∧ calcTp calcDiffMs s curTime = s) := by
  unfold calcTp
  by_cases hfresh : s.Fresh
  · rw [if_pos hfresh]
    exact .inl ⟨.inl hfresh, rfl, rfl, .inl rfl⟩
  rw [if_neg hfresh]
  by_cases hdue : s.Due calcDiffMs curTime
  · rw [if_pos hdue]
    exact .inl ⟨.inr hdue, rfl, rfl, .inr rfl⟩
  · rw [if_neg hdue]
    exact .inr ⟨by rintro (h | h) <;> contradiction, rfl⟩

theorem Agrees.update {calcDiffMs : BitVec 32} {s : DirStats} {l : Ledger} (h : Agrees s l)
    (p : Packet) : Agrees (update calcDiffMs s p) (l.step calcDiffMs s (some p)) := by
  have huni := count_byteUni h.byteUni p
  unfold Stats.update
  simp only [Ledger.step]
  rcases calcTp_cases calcDiffMs (count s p) p.curTime with
    ⟨hnew, hbyteUni, hbits, htime⟩ | ⟨hold, hcalc⟩
  · rw [if_pos hnew]
    refine ⟨hbyteUni.trans huni, fun _ => ⟨Nat.zero_le _, ?_, ?_⟩⟩
    · rw [hbits, huni, ofNat_mul_eight, Nat.sub_zero]
    · -- `last_rx_time_ms` has just been set to the current time
      rcases htime with htime | htime <;> exact htime
  · rw [if_neg hold, hcalc]
    refine ⟨huni, fun hne => ?_⟩
    obtain ⟨hle, hbits, htime⟩ := h.base hne
    refine ⟨Nat.add_le_add_right hle _, ?_, htime⟩
    rw [Nat.add_sub_add_right]
    exact hbits

theorem Agrees.reset (calcDiffMs : BitVec 32) (s : DirStats) (l : Ledger) :
    Agrees (reset s) (l.step calcDiffMs s none) :=
  -- without a time there is no base to agree with
  ⟨rfl, fun hne => absurd rfl hne⟩

theorem observe_agrees (calcDiffMs : BitVec 32) (es : List (Option Packet)) :
    Agrees (observe calcDiffMs es).1 (observe calcDiffMs es).2 := by
  induction es using List.reverseRecOn with
  | nil => exact ⟨rfl, fun hne => absurd rfl hne⟩
  | append_singleton es e ih =>
    rw [observe_concat]
    cases e with
    | some p => exact ih.update p
    | none => exact Agrees.reset calcDiffMs _ _

/-! ## The throughput -/

/-- Both branches of `diff_t` are the difference modulo `2 ^ 32`. -/
theorem diffT_eq (curTime lastCalcTimeMs : BitVec 32) :
    diffT curTime lastCalcTimeMs = curTime - lastCalcTimeMs := by
  unfold diffT
  split
  · rfl
  · bv_omega

/-- The update with the packet computes a throughput. -/
def DirStats.Calculates (calcDiffMs : BitVec 32) (s : DirStats) (p : Packet) : Prop :=
  ¬ (count s p).Fresh ∧ (count s p).Due calcDiffMs p.curTime

instance (calcDiffMs : BitVec 32) (s : DirStats) (p : Packet) :
    Decidable (s.Calculates calcDiffMs p) := inferInstanceAs (Decidable (_ ∧ _))

section
variable {calcDiffMs : BitVec 32} {s : DirStats} {l : Ledger} {p : Packet}

theorem DirStats.Calculates.time_ne (h : s.Calculates calcDiffMs p) :
    s.lastCalcTimeMs ≠ 0#32 :=
  fun h0 => h.1 (.inl h0)

/-- The difference is the number of bits since the last calculation, modulo `2 ^ 64`. -/
theorem Agrees.diffBits_eq (ha : Agrees s l) (h : s.Calculates calcDiffMs p) :
    diffBits (count s p) = BitVec.ofNat 64 (8 * (l.sinceCalc + p.uni)) := by
  obtain ⟨hle, hbits, -⟩ := ha.base h.time_ne
  have hsplit : 8 * (l.sinceReset + p.uni) =
      8 * (l.sinceReset - l.sinceCalc) + 8 * (l.sinceCalc + p.uni) := by omega
  have hlast : (count s p).lastCalcBits = s.lastCalcBits := rfl
  rw [diffBits, count_byteUni ha.byteUni, ofNat_mul_eight, hlast, hbits, hsplit,
    BitVec.ofNat_add, BitVec.add_comm, BitVec.add_sub_cancel]

/-- There is no underflow while the bits since the last reset fit into the counter. -/
theorem Agrees.last_le (ha : Agrees s l) (h : s.Calculates calcDiffMs p)
    (hfit : 8 * (l.sinceReset + p.uni) < 2 ^ 64) :
    s.lastCalcBits ≤ (count s p).byteUni * 8#64 := by
  obtain ⟨-, hbits, -⟩ := ha.base h.time_ne
  rw [count_byteUni ha.byteUni, ofNat_mul_eight, hbits, BitVec.le_def, BitVec.toNat_ofNat,
    BitVec.toNat_ofNat, Nat.mod_eq_of_lt hfit, Nat.mod_eq_of_lt (by omega)]
  omega

theorem tpKbits_update (h : s.Calculates calcDiffMs p) :
    (update calcDiffMs s p).tpKbits =
      (diffBits (count s p) /
        (diffT p.curTime (count s p).lastCalcTimeMs).setWidth 64).setWidth 32 := by
  rw [update, calcTp, if_neg h.1, if_pos h.2]

/-- The computed throughput, times the elapsed time, is at most the number of bits. -/
theorem Agrees.tpKbits_mul_le (ha : Agrees s l) (h : s.Calculates calcDiffMs p) :
    (Stats.update calcDiffMs s p).tpKbits.toNat * (p.curTime - l.calcTime).toNat ≤
      8 * (l.sinceCalc + p.uni) := by
  obtain ⟨-, -, htime⟩ := ha.base h.time_ne
  have hlast : (count s p).lastCalcTimeMs = l.calcTime := htime
  have helapsed : ((p.curTime - l.calcTime).setWidth 64).toNat = (p.curTime - l.calcTime).toNat :=
    BitVec.toNat_setWidth_of_le (by decide)
  rw [tpKbits_update h, hlast, diffT_eq, BitVec.toNat_setWidth, BitVec.toNat_udiv, helapsed,
    ha.diffBits_eq h, BitVec.toNat_ofNat]
  -- both truncations only make the number smaller
  calc _ ≤ 8 * (l.sinceCalc + p.uni) % 2 ^ 64 / (p.curTime - l.calcTime).toNat *
        (p.curTime - l.calcTime).toNat := Nat.mul_le_mul_right _ (Nat.mod_le _ _)
    _ ≤ 8 * (l.sinceCalc + p.uni) % 2 ^ 64 := Nat.div_mul_le_self _ _
    _ ≤ 8 * (l.sinceCalc + p.uni) := Nat.mod_le _ _

end

/-- The ledger of a direction after some calls. -/
def Dir.ledger (d : Dir) (cs : List Call) : Ledger := (observe d.calcDiffMs (d.events cs)).2

theorem ledger_agrees (d : Dir) (cs : List Call) : Agrees (d.of (calls cs)) (d.ledger cs) := by
  rw [of_calls, ← observe_fst]
  exact observe_agrees _ _

theorem of_step {d : Dir} {c : Call} {p : Packet} (hc : d.event c = some (some p))
    (s : RtwStats) : d.of (step s c) = update d.calcDiffMs (d.of s) p := by
  cases d <;> cases c <;> cases hc <;> rfl

/-- Whenever a call computes a throughput: the difference is the number of bits since the last
calculation modulo `2 ^ 64`, it does not underflow while the bits since the last reset fit into
the counter, and the throughput is at most the bits since the last calculation, divided by the
time since then. -/
theorem throughput_le (d : Dir) (cs : List Call) (c : Call) (p : Packet)
    (hc : d.event c = some (some p))
    (hcalc : (d.of (calls cs)).Calculates d.calcDiffMs p) :
    (diffBits (count (d.of (calls cs)) p)).toNat =
        8 * ((d.ledger cs).sinceCalc + p.uni) % 2 ^ 64 ∧
      (8 * ((d.ledger cs).sinceReset + p.uni) < 2 ^ 64 →
        (d.of (calls cs)).lastCalcBits ≤ (count (d.of (calls cs)) p).byteUni * 8#64) ∧
      (d.of (calls (cs ++ [c]))).tpKbits.toNat * (p.curTime - (d.ledger cs).calcTime).toNat ≤
        8 * ((d.ledger cs).sinceCalc + p.uni) := by
  have hagrees := ledger_agrees d cs
  have hlast : d.of (calls (cs ++ [c])) = update d.calcDiffMs (d.of (calls cs)) p := by
    rw [calls, List.foldl_append]
    exact of_step hc _
  refine ⟨?_, hagrees.last_le hcalc, ?_⟩
  · rw [hagrees.diffBits_eq hcalc, BitVec.toNat_ofNat]
  · rw [hlast]
    exact hagrees.tpKbits_mul_le hcalc

/-- A frame of 60000 bytes a second after another one. -/
theorem two_frames :
    (calls [.updateRx 60000#16 0 0 5#32, .updateRx 60000#16 0 0 1006#32]).rx.tpKbits.toNat * 1001 ≤
      8 * 60000 :=
  (throughput_le .rx [.updateRx 60000#16 0 0 5#32] (.updateRx 60000#16 0 0 1006#32)
    ⟨60000#64, 0, 0, 1006#32⟩ (by decide) (by decide)).2.2

/-- `n` requests of the greatest length in the same millisecond. -/
def burst (n : ℕ) : List Call := List.replicate n (.updateTx 0xffffffff#32 0 0 1#32)

/-- Only the first request of a burst takes a base; the others are counted. -/
theorem calls_burst (n : ℕ) :
    (calls (burst (n + 1))).tx =
      { byteUni := BitVec.ofNat 64 ((n + 1) * 0xffffffff)
        byteTotal := BitVec.ofNat 64 ((n + 1) * 0xffffffff)
        tpKbits := 0
        lastTimeMs := 1#32
        lastCalcBits := 0x7fffffff8#64
        lastCalcTimeMs := 1#32 } := by
  induction n with
  | zero => rfl
  | succ n ih =>
    have hstep : (calls (burst (n + 1 + 1))).tx =
        update txtpCalcDiffMs (calls (burst (n + 1))).tx ⟨0xffffffff#64, 0, 0, 1#32⟩ := by
      rw [calls, burst, List.replicate_succ', List.foldl_append]
      rfl
    have hnext : BitVec.ofNat 64 ((n + 1 + 1) * 0xffffffff) =
        BitVec.ofNat 64 ((n + 1) * 0xffffffff) + 0xffffffff#64 := by
      rw [Nat.succ_mul, BitVec.ofNat_add]
    have hbase : (0x7fffffff8#64 ≠ 0#64) ∧ (1#32 ≠ 0#32) := by decide
    have hwait : ¬ txtpCalcDiffMs < diffT 1#32 1#32 := by decide
    rw [hstep, ih, hnext, update, calcTp, if_neg, if_neg]
    · rfl
    · -- no time has passed
      exact fun hdue => hwait hdue.1
    · rintro (htime | hbits)
      · exact hbase.2 htime
      · exact hbase.1 hbits

/-- After `2 ^ 29` such requests the counter of bits has passed `2 ^ 64`, and the difference to the
bits at the last calculation underflows. -/
theorem burst_underflow :
    (calls (burst (2 ^ 29))).tx.Calculates txtpCalcDiffMs ⟨0xffffffff#64, 0, 0, 1002#32⟩ ∧
      (count (calls (burst (2 ^ 29))).tx ⟨0xffffffff#64, 0, 0, 1002#32⟩).byteUni * 8#64 <
        (calls (burst (2 ^ 29))).tx.lastCalcBits := by
  have hburst := calls_burst (2 ^ 29 - 1)
  rw [Nat.sub_add_cancel (Nat.one_le_two_pow)] at hburst
  rw [hburst]
  decide

end Rtl88x2cu.Trx.Stats
