import Mathlib.Algebra.Order.Ring.Nat
import Mathlib.Data.List.Basic
import Rtl88x2cu.Lib.WhileLoop
import Rtl88x2cu.PhlQueue

/-!
# The channels of a scan

`_cmd_scan_select_chnl` (`phl/phl_cmd_scan.c`) gives the next channel of a scan: it takes channels
from a list, puts the operating channels at the front of the list where the device has to go back to
them, and fills the list again for another pass.

`spec` is the sequence that the comment above `_cmd_scan_enqueue_opch` states. `sequence_spec_iff`
says for which parameters the channels come in this sequence.
-/

namespace Rtl88x2cu.Scan

/-! ## Model -/

/-- `enum phl_scan_mode`. -/
inductive ScanMode where
  | nullMode
  | normalScanMode
  | backopMode
  | p2pScanMode
  | p2pListenMode
  deriving DecidableEq, Repr

/-- `enum scan_bkop_mode`. -/
inductive BkopMode where
  | none
  | cnt
  | timer
  deriving DecidableEq, Repr

/-- `struct phl_scan_channel`. -/
structure PhlScanChannel where
  channel : ℕ
  duration : ℕ
  scanMode : ScanMode
  deriving DecidableEq, Repr

/-- The fields of `struct rtw_phl_scan_param` for the sequence of channels. -/
structure ScanParam where
  repeats : ℕ
  ch : List PhlScanChannel
  chIdx : ℕ
  backOpMode : BkopMode
  backOpChCnt : ℕ
  backOpChDurMs : ℕ
  backOpOffChDurMs : ℕ
  scanCh : Option PhlScanChannel
  chlist : PhlQueue PhlScanChannel
  backOpCh : List PhlScanChannel
  deriving DecidableEq, Repr

/-- `_cmd_scan_update_chlist`. The counter of the queue is not reset. -/
def updateChlist (p : ScanParam) : ScanParam :=
  { p with chlist := p.ch.foldl pqPush { p.chlist with queue := [] } }

/-- The loop of `_cmd_scan_enqueue_opch`. -/
def enqueueOpch (q : PhlQueue PhlScanChannel) : List PhlScanChannel → PhlQueue PhlScanChannel
  | [] => q
  | op :: l => if op.channel ≠ 0 then enqueueOpch (pqPushFirst q op) l else q

/-- `back_op_is_required`. -/
def backOpIsRequired (p : ScanParam) : Bool :=
  match p.backOpCh with
  | [] => false
  | op :: _ => op.channel ≠ 0

/-- What `_cmd_scan_select_chnl` does with the channel that it has taken from the list; `none` if it
divides by zero. -/
def takeChnl (p : ScanParam) (scanCh : PhlScanChannel) : Option (PhlScanChannel × ScanParam) :=
  match scanCh.scanMode with
  | .normalScanMode =>
    let p' :=
      if backOpIsRequired p ∧ p.backOpMode = .cnt ∧ p.scanCh.isSome then
        if p.backOpChCnt = 0 then none
        else if (p.chIdx + 1) % p.backOpChCnt = 0 then
          some { p with chlist := enqueueOpch p.chlist p.backOpCh }
        else some p
      else some p
    p'.map fun p => (scanCh, { p with chIdx := p.chIdx + 1 })
  | .p2pListenMode =>
    if backOpIsRequired p ∧ p.backOpMode = .timer then
      some ({ scanCh with duration := p.backOpOffChDurMs },
        { p with chlist := enqueueOpch p.chlist p.backOpCh, chIdx := p.chIdx + 1 })
    else some (scanCh, { p with chIdx := p.chIdx + 1 })
  | _ => some (scanCh, p)

/-- The list is filled again. -/
def refill (p : ScanParam) : ScanParam :=
  { updateChlist p with
    chIdx := 0
    repeats := if p.repeats ≠ 255 then p.repeats - 1 else p.repeats }

inductive Selected where
  | null
  | channel (scanCh : PhlScanChannel) (p : ScanParam)
  | divideByZero
  deriving DecidableEq, Repr

/-- `_cmd_scan_select_chnl` after the jumps to `next_ch`. -/
def selectFront (p : ScanParam) : Selected :=
  match pqPop p.chlist with
  | none => .null
  | some (scanCh, q) =>
    match takeChnl { p with chlist := q } scanCh with
    | none => .divideByZero
    | some (scanCh, p) => .channel scanCh { p with scanCh := some scanCh }

/-- `_cmd_scan_select_chnl`; `none` if the jumps to `next_ch` do not end. There are less than 256 of
them, or there is no end. -/
def selectChnl (p : ScanParam) : Option Selected :=
  (whileLoop (fun p => (pqPop p.chlist).isNone && decide (0 < p.repeats)) (some ∘ refill) 256 p).map
    selectFront

/-- A scan parameter before `_phl_cmd_scan_req_init`. The callers ask for normal channels, or for a
channel to listen on. -/
structure ScanReq where
  repeats : ℕ
  ch : List PhlScanChannel
  backOpMode : BkopMode
  backOpChCnt : ℕ
  backOpChDurMs : ℕ
  backOpOffChDurMs : ℕ
  modes : ∀ c ∈ ch, c.scanMode = .normalScanMode ∨ c.scanMode = .p2pListenMode

/-- `_cmd_scan_update_chparam`. -/
def updateChparam (p : ScanParam) : ScanParam :=
  let totalScanMs := ((p.ch.find? (·.scanMode = .p2pListenMode)).map (·.duration)).getD 0
  let scanSectionMs := (p.backOpChDurMs + p.backOpOffChDurMs) % 2 ^ 16
  if scanSectionMs ≠ 0 then { p with repeats := totalScanMs / scanSectionMs % 2 ^ 8 } else p

/-- An entry of `back_op_ch`; it is zero if there is no channel. -/
def backOpChOf (dur chan : ℕ) : PhlScanChannel :=
  if chan ≠ 0 then ⟨chan, dur, .backopMode⟩ else ⟨0, 0, .nullMode⟩

/-- `_phl_cmd_scan_req_init`; `opch` is what `rtw_phl_mr_get_opch_list` gives. -/
def reqInit (r : ScanReq) (opch : List ℕ) : ScanParam :=
  let p := updateChlist
    { repeats := r.repeats, ch := r.ch, chIdx := 0, backOpMode := r.backOpMode
      backOpChCnt := r.backOpChCnt, backOpChDurMs := r.backOpChDurMs
      backOpOffChDurMs := r.backOpOffChDurMs, scanCh := none, chlist := pqInit, backOpCh := [] }
  if p.backOpMode ≠ .none then
    let p := { p with backOpCh := opch.map (backOpChOf p.backOpChDurMs) }
    if opch ≠ [] ∧ p.backOpMode = .timer then updateChparam p else p
  else p

/-- The channels that successive calls return. -/
inductive Sequence : ScanParam → List PhlScanChannel → Prop where
  | done {p : ScanParam} (h : selectChnl p = some .null) : Sequence p []
  | next {p p' : ScanParam} {c : PhlScanChannel} {l : List PhlScanChannel}
      (h : selectChnl p = some (.channel c p')) (hl : Sequence p' l) : Sequence p (c :: l)

/-! ## The stated sequence -/

/-- The operating channels. -/
def ops (p : ScanParam) : List PhlScanChannel := p.backOpCh.takeWhile (·.channel ≠ 0)

/-- What comes after the channel with the index `i`, in count mode: the operating channels, after
every `back_op_ch_cnt`-th channel. -/
def specInsertion (p : ScanParam) (i : ℕ) : List PhlScanChannel :=
  if p.backOpMode = .cnt ∧ p.backOpChCnt ≠ 0 ∧ (i + 1) % p.backOpChCnt = 0 then ops p else []

/-- A pass over the channels from the index `i` on. -/
def specPass (p : ScanParam) : ℕ → List PhlScanChannel → List PhlScanChannel
  | _, [] => []
  | i, c :: cs => c :: (specInsertion p i ++ specPass p (i + 1) cs)

/-- All passes. -/
def spec (p : ScanParam) : List PhlScanChannel :=
  (List.replicate (p.repeats + 1) (specPass p 0 p.ch)).flatten

example :
    let ch (n : ℕ) : PhlScanChannel := ⟨n, 30, .normalScanMode⟩
    let op (n : ℕ) : PhlScanChannel := ⟨n, 30, .backopMode⟩
    spec (reqInit ⟨0, [ch 0, ch 1, ch 2, ch 3, ch 4], .cnt, 3, 30, 0, by decide⟩ [6, 36]) =
      [ch 0, ch 1, ch 2, op 6, op 36, ch 3, ch 4] := by
  decide

/-! ## The sequence of the code -/

/-- What `_cmd_scan_select_chnl` puts at the front of the list when it selects the channel `c` with
the index `i`, `started` if it has selected a channel before; `none` if it divides by zero. -/
def insertion (p : ScanParam) (started : Bool) (i : ℕ) (c : PhlScanChannel) :
    Option (List PhlScanChannel) :=
  match c.scanMode with
  | .normalScanMode =>
    if ops p ≠ [] ∧ p.backOpMode = .cnt ∧ started then
      if p.backOpChCnt = 0 then none
      else if (i + 1) % p.backOpChCnt = 0 then some (ops p).reverse
      else some []
    else some []
  | .p2pListenMode =>
    if ops p ≠ [] ∧ p.backOpMode = .timer then some (ops p).reverse else some []
  | _ => some []

/-- The channel as it is returned. -/
def shown (p : ScanParam) (c : PhlScanChannel) : PhlScanChannel :=
  if c.scanMode = .p2pListenMode ∧ ops p ≠ [] ∧ p.backOpMode = .timer then
    { c with duration := p.backOpOffChDurMs }
  else c

/-- The rest of a pass. -/
def pass (p : ScanParam) : Bool → ℕ → List PhlScanChannel → Option (List PhlScanChannel)
  | _, _, [] => some []
  | started, i, c :: cs => do
    let ins ← insertion p started i c
    let l ← pass p true (i + 1) cs
    some (shown p c :: (ins ++ l))

/-- More passes. -/
def rounds (p : ScanParam) : ℕ → Option (List PhlScanChannel)
  | 0 => some []
  | n + 1 => do
    let l ← pass p true 0 p.ch
    let l' ← rounds p n
    some (l ++ l')

/-! ## One call -/

theorem queue_enqueueOpch (q : PhlQueue PhlScanChannel) (l : List PhlScanChannel) :
    (enqueueOpch q l).queue = (l.takeWhile (·.channel ≠ 0)).reverse ++ q.queue := by
  induction l generalizing q with
  | nil => rfl
  | cons op l ih =>
    rw [enqueueOpch]
    by_cases hop : op.channel = 0
    · simp [hop]
    · rw [if_pos hop, ih, pqPushFirst, List.takeWhile_cons_of_pos (by simpa using hop)]
      simp

theorem wf_enqueueOpch {q : PhlQueue PhlScanChannel} (h : q.Wf) (l : List PhlScanChannel) :
    (enqueueOpch q l).Wf := by
  induction l generalizing q with
  | nil => exact h
  | cons op l ih =>
    rw [enqueueOpch]
    split
    · exact ih (h.pushFirst op)
    · exact h

theorem backOpIsRequired_iff (p : ScanParam) : backOpIsRequired p = true ↔ ops p ≠ [] := by
  rw [backOpIsRequired, ops]
  split
  case h_1 h => simp [h]
  case h_2 op l h =>
    rw [h]
    by_cases hop : op.channel = 0 <;> simp [hop]

/-- `p` is a parameter of the scan `p₀` on the way: what has been selected, and the list of channels
that are left. -/
structure At (p₀ p : ScanParam) (started : Bool) (i : ℕ) (q : List PhlScanChannel) (n : ℕ) :
    Prop where
  ch : p.ch = p₀.ch
  backOpMode : p.backOpMode = p₀.backOpMode
  backOpChCnt : p.backOpChCnt = p₀.backOpChCnt
  backOpOffChDurMs : p.backOpOffChDurMs = p₀.backOpOffChDurMs
  backOpCh : p.backOpCh = p₀.backOpCh
  started : p.scanCh.isSome = started
  chIdx : p.chIdx = i
  queue : p.chlist.queue = q
  wf : p.chlist.Wf
  repeats : p.repeats = n

section

variable {p₀ p : ScanParam} {started : Bool} {i n : ℕ} {c : PhlScanChannel}
  {q : List PhlScanChannel}

/-- There is no jump if there is a channel in the list. -/
theorem At.selectChnl_eq (h : At p₀ p started i (c :: q) n) :
    ∃ l, selectChnl p = some (match takeChnl { p with chlist := l } c with
      | none => .divideByZero
      | some (c, p) => .channel c { p with scanCh := some c }) ∧ l.queue = q ∧ l.Wf := by
  obtain ⟨l, hpop, hl, hwf⟩ := h.wf.pop_eq_some h.queue
  refine ⟨l, ?_, hl, hwf⟩
  rw [selectChnl, whileLoop_of_not _ (by simp [hpop]), Option.map_some, selectFront, hpop]

theorem At.backop (h : At p₀ p started i (c :: q) n) (hc : c.scanMode = .backopMode) :
    ∃ p', selectChnl p = some (.channel c p') ∧ At p₀ p' true i q n := by
  obtain ⟨l, hsel, hl, hwf⟩ := h.selectChnl_eq
  rw [takeChnl, hc] at hsel
  exact ⟨_, hsel, { h with started := rfl, queue := hl, wf := hwf }⟩

theorem At.backOpIsRequired_iff (h : At p₀ p started i q n) :
    backOpIsRequired p = true ↔ ops p₀ ≠ [] := by
  rw [Scan.backOpIsRequired_iff, ops, h.backOpCh, ← ops]

/-- The operating channels go to the front of the list, the last one first. -/
theorem At.queue_enqueueOpch (h : At p₀ p started i (c :: q) n) {l : PhlQueue PhlScanChannel}
    (hl : l.queue = q) : (enqueueOpch l p.backOpCh).queue = (ops p₀).reverse ++ q := by
  rw [Scan.queue_enqueueOpch, h.backOpCh, hl, ops]

theorem At.normal (h : At p₀ p started i (c :: q) n) (hc : c.scanMode = .normalScanMode) :
    (insertion p₀ started i c = none ∧ selectChnl p = some .divideByZero) ∨
      ∃ ins p', insertion p₀ started i c = some ins ∧
        selectChnl p = some (.channel (shown p₀ c) p') ∧ At p₀ p' true (i + 1) (ins ++ q) n := by
  obtain ⟨l, hsel, hl, hwf⟩ := h.selectChnl_eq
  have hshown : shown p₀ c = c := if_neg (by simp [hc])
  rw [takeChnl, hc] at hsel
  rw [insertion, hc, hshown]
  dsimp only at hsel ⊢
  have hreq : backOpIsRequired { p with chlist := l } = backOpIsRequired p := rfl
  have hiff : (backOpIsRequired p = true ∧ p.backOpMode = .cnt ∧ p.scanCh.isSome = true) ↔
      ops p₀ ≠ [] ∧ p₀.backOpMode = .cnt ∧ started = true := by
    rw [h.backOpIsRequired_iff, h.backOpMode, h.started]
  rw [hreq] at hsel
  by_cases hcond : ops p₀ ≠ [] ∧ p₀.backOpMode = .cnt ∧ started = true
  case neg =>
    rw [if_neg (mt hiff.mp hcond)] at hsel
    rw [if_neg hcond]
    exact .inr ⟨[], _, rfl, hsel, { h with
      started := rfl, chIdx := congrArg (· + 1) h.chIdx, queue := hl, wf := hwf }⟩
  case pos =>
    rw [if_pos (hiff.mpr hcond)] at hsel
    rw [if_pos hcond, ← h.backOpChCnt, ← h.chIdx]
    by_cases hzero : p.backOpChCnt = 0
    · rw [if_pos hzero] at hsel ⊢
      exact .inl ⟨rfl, hsel⟩
    rw [if_neg hzero] at hsel ⊢
    by_cases hturn : (p.chIdx + 1) % p.backOpChCnt = 0
    · rw [if_pos hturn] at hsel ⊢
      exact .inr ⟨_, _, rfl, hsel, { h with
        started := rfl, chIdx := rfl, queue := h.queue_enqueueOpch hl
        wf := wf_enqueueOpch hwf _ }⟩
    · rw [if_neg hturn] at hsel ⊢
      exact .inr ⟨[], _, rfl, hsel, { h with
        started := rfl, chIdx := rfl, queue := hl, wf := hwf }⟩

theorem At.listen (h : At p₀ p started i (c :: q) n) (hc : c.scanMode = .p2pListenMode) :
    ∃ ins p', insertion p₀ started i c = some ins ∧
      selectChnl p = some (.channel (shown p₀ c) p') ∧ At p₀ p' true (i + 1) (ins ++ q) n := by
  obtain ⟨l, hsel, hl, hwf⟩ := h.selectChnl_eq
  rw [takeChnl, hc] at hsel
  rw [insertion, hc, shown, hc]
  dsimp only at hsel ⊢
  by_cases hcond : ops p₀ ≠ [] ∧ p₀.backOpMode = .timer
  case neg =>
    rw [if_neg (by rwa [← h.backOpIsRequired_iff, ← h.backOpMode] at hcond)] at hsel
    rw [if_neg hcond, if_neg (by simpa using hcond)]
    exact ⟨[], _, rfl, hsel, { h with
      started := rfl, chIdx := congrArg (· + 1) h.chIdx, queue := hl, wf := hwf }⟩
  case pos =>
    rw [if_pos (by rwa [← h.backOpIsRequired_iff, ← h.backOpMode] at hcond)] at hsel
    rw [if_pos hcond, if_pos ⟨rfl, hcond⟩, ← h.backOpOffChDurMs]
    exact ⟨_, _, rfl, hsel, { h with
      started := rfl, chIdx := congrArg (· + 1) h.chIdx, queue := h.queue_enqueueOpch hl
      wf := wf_enqueueOpch hwf _ }⟩

theorem At.null (h : At p₀ p started i [] 0) : selectChnl p = some .null := by
  have hpop : pqPop p.chlist = none := by rw [pqPop, h.queue]
  rw [selectChnl, whileLoop_of_not _ (by simp [h.repeats]), Option.map_some, selectFront, hpop]

theorem foldl_pqPush {q : PhlQueue PhlScanChannel} (hq : q.Wf) (l : List PhlScanChannel) :
    (l.foldl pqPush q).queue = q.queue ++ l ∧ (l.foldl pqPush q).Wf := by
  induction l generalizing q with
  | nil => exact ⟨(List.append_nil _).symm, hq⟩
  | cons c l ih =>
    obtain ⟨hl, hwf⟩ := ih (hq.push c)
    refine ⟨?_, hwf⟩
    rw [List.foldl_cons, hl, pqPush, List.append_assoc]
    rfl

theorem At.refill (h : At p₀ p started i [] (n + 1)) (hn : n < 254) :
    At p₀ (refill p) started 0 p₀.ch n := by
  have hcnt : ({ p.chlist with queue := [] } : PhlQueue PhlScanChannel).Wf := by
    have hwf := h.wf
    rwa [PhlQueue.Wf, h.queue] at hwf
  obtain ⟨hqueue, hwf⟩ := foldl_pqPush hcnt p.ch
  refine { h with chIdx := rfl, queue := ?_, wf := hwf, repeats := ?_ }
  · rw [← h.ch]
    exact hqueue
  · change (if p.repeats ≠ 255 then p.repeats - 1 else p.repeats) = n
    rw [h.repeats, if_pos (by omega), Nat.add_sub_cancel]

/-- With channels to fill the list with, there is one jump. -/
theorem At.selectChnl_refill (h : At p₀ p started i [] (n + 1)) (hn : n < 254) (hch : p₀.ch ≠ []) :
    selectChnl p = selectChnl (Scan.refill p) := by
  have hpop : pqPop p.chlist = none := by rw [pqPop, h.queue]
  obtain ⟨c, l, hcl⟩ := List.exists_cons_of_ne_nil hch
  have h' := h.refill hn
  rw [hcl] at h'
  obtain ⟨q, hpop', -, -⟩ := h'.wf.pop_eq_some h'.queue
  rw [selectChnl, whileLoop_succ 255 (by simp [hpop, h.repeats]), selectChnl,
    whileLoop_of_not 256 (by simp [hpop'])]
  rw [Function.comp_apply, Option.bind_some, whileLoop_of_not 255 (by simp [hpop'])]

end

/-! ## All calls -/

section

variable {p p' : ScanParam} {c : PhlScanChannel} {l : List PhlScanChannel}

theorem sequence_of_channel (h : selectChnl p = some (.channel c p')) :
    Sequence p l ↔ ∃ l', l = c :: l' ∧ Sequence p' l' := by
  constructor
  · rintro (h' | ⟨h', hl⟩)
    · simp [h] at h'
    · obtain ⟨rfl, rfl⟩ := Selected.channel.inj (Option.some.inj (h.symm.trans h'))
      exact ⟨_, rfl, hl⟩
  · rintro ⟨l', rfl, hl⟩
    exact .next h hl

theorem sequence_of_null (h : selectChnl p = some .null) : Sequence p l ↔ l = [] := by
  constructor
  · rintro (h' | ⟨h', hl⟩)
    · rfl
    · simp [h] at h'
  · rintro rfl
    exact .done h

theorem not_sequence_of_divideByZero (h : selectChnl p = some .divideByZero) : ¬Sequence p l := by
  rintro (h' | ⟨h', hl⟩) <;> simp [h] at h'

theorem sequence_congr (h : selectChnl p = selectChnl p') : Sequence p l ↔ Sequence p' l := by
  constructor
  · rintro (h' | ⟨h', hl⟩)
    · exact .done (h ▸ h')
    · exact .next (h ▸ h') hl
  · rintro (h' | ⟨h', hl⟩)
    · exact .done (h ▸ h')
    · exact .next (h ▸ h') hl

/-- The calls return one sequence. -/
theorem Sequence.unique {l' : List PhlScanChannel} (h : Sequence p l) (h' : Sequence p l') :
    l = l' := by
  induction h generalizing l' with
  | done hsel => exact ((sequence_of_null hsel).mp h').symm
  | next hsel _ ih =>
    obtain ⟨l'', rfl, hl''⟩ := (sequence_of_channel hsel).mp h'
    rw [ih hl'']

end

/-- The rest of a pass and `n` more passes. -/
def rest (p : ScanParam) (started : Bool) (i : ℕ) (cs : List PhlScanChannel) (n : ℕ) :
    Option (List PhlScanChannel) := do
  let l ← pass p started i cs
  let l' ← rounds p n
  some (l ++ l')

theorem rest_nil_zero (p : ScanParam) (started : Bool) (i : ℕ) : rest p started i [] 0 = some [] :=
  rfl

theorem rest_nil_succ (p : ScanParam) (started : Bool) (i n : ℕ) :
    rest p started i [] (n + 1) = rest p true 0 p.ch n := by
  rw [rest, rest, pass, rounds]
  cases pass p true 0 p.ch <;> cases rounds p n <;> rfl

theorem rest_cons (p : ScanParam) (started : Bool) (i : ℕ) (c : PhlScanChannel)
    (cs : List PhlScanChannel) (n : ℕ) :
    rest p started i (c :: cs) n = (insertion p started i c).bind fun ins =>
      (rest p true (i + 1) cs n).map fun l => shown p c :: (ins ++ l) := by
  rw [rest, rest, pass]
  cases insertion p started i c <;> cases pass p true (i + 1) cs <;> cases rounds p n <;>
    simp

/-- A parameter as `_phl_cmd_scan_req_init` leaves it: the modes of the channels, and which ones are
operating channels. -/
structure Wf (p : ScanParam) : Prop where
  ch : ∀ c ∈ p.ch, c.scanMode = .normalScanMode ∨ c.scanMode = .p2pListenMode
  ops : ∀ op ∈ ops p, op.scanMode = .backopMode

theorem insertion_backop {p : ScanParam} (hp : Wf p) {started : Bool} {i : ℕ} {c : PhlScanChannel}
    {ins : List PhlScanChannel} (h : insertion p started i c = some ins) :
    ∀ op ∈ ins, op.scanMode = .backopMode := by
  have hins : ins = [] ∨ ins = (ops p).reverse := by
    rw [insertion] at h
    split at h
    case h_3 => exact .inl (Option.some.inj h).symm
    all_goals split_ifs at h
    all_goals first
      | exact .inl (Option.some.inj h).symm
      | exact .inr (Option.some.inj h).symm
  obtain rfl | rfl := hins
  · simp
  · simpa using hp.ops

section

variable {p₀ p : ScanParam} {started : Bool} {i n : ℕ} {cs ins l : List PhlScanChannel}

/-- The operating channels at the front of the list come first. -/
theorem At.sequence_append (hins : ∀ op ∈ ins, op.scanMode = .backopMode)
    (h : At p₀ p true i (ins ++ cs) n) :
    ∃ p', At p₀ p' true i cs n ∧ ∀ l, Sequence p l ↔ ∃ l', l = ins ++ l' ∧ Sequence p' l' := by
  induction ins generalizing p with
  | nil => exact ⟨p, h, by simp⟩
  | cons op ins ih =>
    rw [List.forall_mem_cons] at hins
    obtain ⟨p₁, hsel, h₁⟩ := h.backop hins.1
    obtain ⟨p₂, h₂, hseq⟩ := ih hins.2 h₁
    refine ⟨p₂, h₂, fun l => ?_⟩
    rw [sequence_of_channel hsel]
    constructor
    · rintro ⟨l', rfl, hl'⟩
      obtain ⟨l'', rfl, hl''⟩ := (hseq l').mp hl'
      exact ⟨l'', rfl, hl''⟩
    · rintro ⟨l'', rfl, hl''⟩
      exact ⟨_, rfl, (hseq _).mpr ⟨l'', rfl, hl''⟩⟩

theorem At.channel (h : At p₀ p started i (c :: cs) n)
    (hc : c.scanMode = .normalScanMode ∨ c.scanMode = .p2pListenMode) :
    (insertion p₀ started i c = none ∧ selectChnl p = some .divideByZero) ∨
      ∃ ins p', insertion p₀ started i c = some ins ∧
        selectChnl p = some (.channel (shown p₀ c) p') ∧ At p₀ p' true (i + 1) (ins ++ cs) n := by
  obtain hc | hc := hc
  · exact h.normal hc
  · exact .inr (h.listen hc)

/-- What the calls return from a channel on. -/
theorem At.sequence_cons (hp : Wf p₀) {c : PhlScanChannel}
    (hc : c.scanMode = .normalScanMode ∨ c.scanMode = .p2pListenMode)
    (h : At p₀ p started i (c :: cs) n)
    (ih : ∀ p' l', At p₀ p' true (i + 1) cs n →
      (Sequence p' l' ↔ rest p₀ true (i + 1) cs n = some l')) :
    Sequence p l ↔ rest p₀ started i (c :: cs) n = some l := by
  rw [rest_cons]
  obtain ⟨hins, hsel⟩ | ⟨ins, p₁, hins, hsel, h₁⟩ := h.channel hc
  · simp [hins, not_sequence_of_divideByZero hsel]
  obtain ⟨p₂, h₂, hseq⟩ := h₁.sequence_append (insertion_backop hp hins)
  rw [sequence_of_channel hsel, hins, Option.bind_some, Option.map_eq_some_iff]
  constructor
  · rintro ⟨l', rfl, hl'⟩
    obtain ⟨l'', rfl, hl''⟩ := (hseq l').mp hl'
    exact ⟨l'', (ih p₂ l'' h₂).mp hl'', rfl⟩
  · rintro ⟨l'', hl'', rfl⟩
    exact ⟨_, rfl, (hseq _).mpr ⟨l'', rfl, (ih p₂ l'' h₂).mpr hl''⟩⟩

/-- The calls return the rest of the pass and the other passes. -/
theorem At.sequence_iff (hp : Wf p₀) (hch : p₀.ch ≠ []) (hn : n < 255)
    (hcs : ∀ c ∈ cs, c.scanMode = .normalScanMode ∨ c.scanMode = .p2pListenMode)
    (hstart : cs = [] → started = true) (h : At p₀ p started i cs n) :
    Sequence p l ↔ rest p₀ started i cs n = some l := by
  induction n generalizing p started i cs l with
  | zero =>
    induction cs generalizing p started i l with
    | nil =>
      rw [rest_nil_zero, sequence_of_null h.null, Option.some.injEq, eq_comm]
    | cons c cs ih =>
      rw [List.forall_mem_cons] at hcs
      exact h.sequence_cons hp hcs.1 fun p' l' h' => ih hcs.2 (fun _ => rfl) h'
  | succ n ihn =>
    induction cs generalizing p started i l with
    | nil =>
      obtain rfl := hstart rfl
      rw [rest_nil_succ, sequence_congr (h.selectChnl_refill (by omega) hch)]
      exact ihn (by omega) hp.ch (fun h => absurd h hch) (h.refill (by omega))
    | cons c cs ih =>
      rw [List.forall_mem_cons] at hcs
      exact h.sequence_cons hp hcs.1 fun p' l' h' => ih hcs.2 (fun _ => rfl) h'

end

/-! ## When the sequence is the stated one -/

/-- What the code inserts after each channel of a pass is what is stated. -/
def Inserted (p : ScanParam) (started : Bool) (i : ℕ) (cs : List PhlScanChannel) : Prop :=
  ∀ k (h : k < cs.length),
    insertion p (started || decide (k ≠ 0)) (i + k) cs[k] = some (specInsertion p (i + k))

section

variable {p : ScanParam} {started : Bool} {i n : ℕ} {c : PhlScanChannel}
  {cs l S : List PhlScanChannel}

theorem inserted_cons : Inserted p started i (c :: cs) ↔
    insertion p started i c = some (specInsertion p i) ∧ Inserted p true (i + 1) cs := by
  constructor
  · intro h
    refine ⟨by simpa using h 0 (Nat.zero_lt_succ _), fun k hk => ?_⟩
    have hk' := h (k + 1) (Nat.succ_lt_succ hk)
    rw [← Nat.add_assoc, Nat.add_right_comm] at hk'
    simpa using hk'
  · rintro ⟨h, hcs⟩ k hk
    cases k with
    | zero => simpa using h
    | succ k =>
      have hk' := hcs k (Nat.lt_of_succ_lt_succ hk)
      rw [← Nat.add_assoc, Nat.add_right_comm]
      simpa using hk'

theorem scanMode_shown (p : ScanParam) (c : PhlScanChannel) :
    (shown p c).scanMode = c.scanMode := by
  rw [shown]
  split <;> rfl

/-- A channel is returned unchanged if the right channels come after it. -/
theorem shown_eq (h : insertion p started i c = some (specInsertion p i)) : shown p c = c := by
  rw [shown]
  refine if_neg fun hc => ?_
  have hspec : specInsertion p i = [] := if_neg (by simp [hc.2.2])
  rw [insertion, hc.1, if_pos hc.2, hspec, Option.some.injEq, List.reverse_eq_nil_iff] at h
  exact hc.2.1 h

/-- Operating channels and what is behind them are told apart by the modes. -/
theorem append_inj_of_backop {ins ins' l' : List PhlScanChannel}
    (hins : ∀ op ∈ ins, op.scanMode = .backopMode) (hins' : ∀ op ∈ ins', op.scanMode = .backopMode)
    (hl : ∀ c, l.head? = some c → c.scanMode ≠ .backopMode)
    (hl' : ∀ c, l'.head? = some c → c.scanMode ≠ .backopMode) (h : ins ++ l = ins' ++ l') :
    ins = ins' ∧ l = l' := by
  have htake : ∀ a b : List PhlScanChannel, (∀ op ∈ a, op.scanMode = .backopMode) →
      (∀ c, b.head? = some c → c.scanMode ≠ .backopMode) →
      (a ++ b).takeWhile (·.scanMode = .backopMode) = a := by
    intro a b ha hb
    rw [List.takeWhile_append_of_pos (by simpa using ha)]
    cases b with
    | nil => simp
    | cons c b => simp [hb c rfl]
  have heq : ins = ins' := by rw [← htake ins l hins hl, h, htake ins' l' hins' hl']
  exact ⟨heq, List.append_cancel_left (heq ▸ h)⟩

/-- What is left does not begin with an operating channel. -/
theorem head_rest (hp : Wf p)
    (hcs : ∀ c ∈ cs, c.scanMode = .normalScanMode ∨ c.scanMode = .p2pListenMode)
    (h : rest p started i cs n = some l) : ∀ c, l.head? = some c → c.scanMode ≠ .backopMode := by
  have hcons : ∀ {st i c cs n l}, c.scanMode = .normalScanMode ∨ c.scanMode = .p2pListenMode →
      rest p st i (c :: cs) n = some l → ∀ c, l.head? = some c → c.scanMode ≠ .backopMode := by
    intro st i c cs n l hc h d hd
    rw [rest_cons] at h
    obtain ⟨ins, -, h⟩ := Option.bind_eq_some_iff.mp h
    obtain ⟨l', -, rfl⟩ := Option.map_eq_some_iff.mp h
    obtain rfl := Option.some.inj hd
    rw [scanMode_shown]
    obtain hc | hc := hc <;> simp [hc]
  cases cs with
  | cons c cs => exact hcons (hcs c List.mem_cons_self) h
  | nil =>
    induction n generalizing started i with
    | zero =>
      obtain rfl := Option.some.inj h
      simp
    | succ n ih =>
      rw [rest_nil_succ] at h
      cases hch : p.ch with
      | nil => exact ih (by rwa [hch] at h)
      | cons c cs => exact hcons (hp.ch c (hch ▸ List.mem_cons_self)) (hch ▸ h)

end

section

variable {p : ScanParam} {started : Bool} {i n : ℕ} {cs S : List PhlScanChannel}

/-- What is left is a stated pass and something else only if the insertions are the stated ones. -/
theorem inserted_of_rest (hp : Wf p)
    (hcs : ∀ c ∈ cs, c.scanMode = .normalScanMode ∨ c.scanMode = .p2pListenMode)
    (hS : ∀ c, S.head? = some c → c.scanMode ≠ .backopMode)
    (h : rest p started i cs n = some (specPass p i cs ++ S)) :
    Inserted p started i cs ∧ rest p true (i + cs.length) [] n = some S := by
  induction cs generalizing started i with
  | nil =>
    refine ⟨fun k hk => absurd hk (Nat.not_lt_zero _), ?_⟩
    cases n with
    | zero => exact h
    | succ n => exact h
  | cons c cs ih =>
    rw [List.forall_mem_cons] at hcs
    rw [rest_cons] at h
    obtain ⟨ins, hins, h⟩ := Option.bind_eq_some_iff.mp h
    obtain ⟨l, hl, h⟩ := Option.map_eq_some_iff.mp h
    rw [specPass, List.cons_append, List.cons.injEq, List.append_assoc] at h
    have hspec : ∀ op ∈ specInsertion p i, op.scanMode = .backopMode := by
      rw [specInsertion]
      split
      · exact hp.ops
      · simp
    have hhead : ∀ d, (specPass p (i + 1) cs ++ S).head? = some d → d.scanMode ≠ .backopMode := by
      cases cs with
      | nil => exact hS
      | cons e cs =>
        intro d hd
        obtain rfl := Option.some.inj hd
        obtain he | he := hcs.2 e List.mem_cons_self <;> simp [he]
    obtain ⟨rfl, rfl⟩ := append_inj_of_backop (insertion_backop hp hins) hspec
      (head_rest hp hcs.2 hl) hhead h.2
    obtain ⟨hrest, hlast⟩ := ih hcs.2 hl
    refine ⟨inserted_cons.mpr ⟨hins, hrest⟩, ?_⟩
    rwa [List.length_cons, Nat.add_comm cs.length, ← Nat.add_assoc]

theorem pass_of_inserted (h : Inserted p started i cs) :
    pass p started i cs = some (specPass p i cs) := by
  induction cs generalizing started i with
  | nil => rfl
  | cons c cs ih =>
    obtain ⟨hins, hcs⟩ := inserted_cons.mp h
    rw [pass, hins, ih hcs, shown_eq hins]
    rfl

/-- More passes as they are stated. -/
def specRounds (p : ScanParam) (n : ℕ) : List PhlScanChannel :=
  (List.replicate n (specPass p 0 p.ch)).flatten

theorem specRounds_succ (p : ScanParam) (n : ℕ) :
    specRounds p (n + 1) = specPass p 0 p.ch ++ specRounds p n := by
  rw [specRounds, List.replicate_succ, List.flatten_cons, specRounds]

theorem head_specRounds (hp : Wf p) (n : ℕ) :
    ∀ c, (specRounds p n).head? = some c → c.scanMode ≠ .backopMode := by
  induction n with
  | zero => simp [specRounds]
  | succ n ih =>
    rw [specRounds_succ]
    cases hch : p.ch with
    | nil => exact ih
    | cons c cs =>
      intro d hd
      obtain rfl := Option.some.inj hd
      obtain hc | hc := hp.ch c (hch ▸ List.mem_cons_self) <;> simp [hc]

theorem rounds_of_inserted (h : n ≠ 0 → Inserted p true 0 p.ch) :
    rounds p n = some (specRounds p n) := by
  induction n with
  | zero => rfl
  | succ n ih =>
    rw [rounds, pass_of_inserted (h (Nat.succ_ne_zero n)), ih fun _ => h (Nat.succ_ne_zero n),
      specRounds_succ]
    rfl

/-- The passes are the stated ones if and only if the insertions are. -/
theorem rest_eq_spec_iff (hp : Wf p) : rest p false 0 p.ch n = some (specRounds p (n + 1)) ↔
    Inserted p false 0 p.ch ∧ (n ≠ 0 → Inserted p true 0 p.ch) := by
  constructor
  · intro h
    rw [specRounds_succ] at h
    obtain ⟨hfirst, h⟩ := inserted_of_rest hp hp.ch (head_specRounds hp n) h
    refine ⟨hfirst, fun hn => ?_⟩
    obtain ⟨n, rfl⟩ := Nat.exists_eq_succ_of_ne_zero hn
    rw [rest_nil_succ, specRounds_succ] at h
    exact (inserted_of_rest hp hp.ch (head_specRounds hp n) h).1
  · rintro ⟨hfirst, hmore⟩
    rw [rest, pass_of_inserted hfirst, rounds_of_inserted hmore, specRounds_succ]
    rfl

end

/-- The condition on a parameter. In count mode, no two channels may be selected with the interval
0; otherwise, at each multiple of the interval there has to be a normal channel that is not the
first one, and the operating channels have to be the same in the other order. -/
def SpecOk (p : ScanParam) : Prop :=
  ops p = [] ∨
    match p.backOpMode with
    | .none => True
    | .timer => ∀ c ∈ p.ch, c.scanMode = .normalScanMode
    | .cnt => ∀ k (h : k < p.ch.length),
      if p.backOpChCnt = 0 then p.ch[k].scanMode = .normalScanMode → k = 0 ∧ p.repeats = 0
      else (k + 1) % p.backOpChCnt = 0 →
        k ≠ 0 ∧ p.ch[k].scanMode = .normalScanMode ∧ (ops p).reverse = ops p

section

variable {p : ScanParam} {started : Bool} {i : ℕ} {c : PhlScanChannel}

theorem insertion_eq_spec_of_ops_nil (hops : ops p = []) :
    insertion p started i c = some (specInsertion p i) := by
  have hspec : specInsertion p i = [] := by
    rw [specInsertion, hops, ite_self]
  rw [insertion, hspec]
  split <;> simp [hops]

theorem insertion_eq_spec_timer_iff (hops : ops p ≠ []) (hmode : p.backOpMode = .timer)
    (hc : c.scanMode = .normalScanMode ∨ c.scanMode = .p2pListenMode) :
    insertion p started i c = some (specInsertion p i) ↔ c.scanMode = .normalScanMode := by
  have hspec : specInsertion p i = [] := if_neg (by simp [hmode])
  rw [hspec, insertion]
  obtain hc | hc := hc <;> simp [hc, hops, hmode]

theorem insertion_eq_spec_cnt_iff (started : Bool) (i : ℕ) (hops : ops p ≠ [])
    (hmode : p.backOpMode = .cnt)
    (hc : c.scanMode = .normalScanMode ∨ c.scanMode = .p2pListenMode) :
    insertion p started i c = some (specInsertion p i) ↔
      if p.backOpChCnt = 0 then c.scanMode = .normalScanMode → started = false
      else (i + 1) % p.backOpChCnt = 0 →
        started = true ∧ c.scanMode = .normalScanMode ∧ (ops p).reverse = ops p := by
  rw [insertion, specInsertion]
  by_cases hzero : p.backOpChCnt = 0
  · obtain hc | hc := hc <;> cases started <;> simp [hc, hops, hmode, hzero]
  · by_cases hturn : (i + 1) % p.backOpChCnt = 0
    · obtain hc | hc := hc <;> cases started <;> simp [hc, hops, hmode, hzero, hturn, Ne.symm hops]
    · obtain hc | hc := hc <;> cases started <;> simp [hc, hops, hmode, hzero, hturn]

end

theorem inserted_iff_specOk {p : ScanParam} (hp : Wf p) :
    (Inserted p false 0 p.ch ∧ (p.repeats ≠ 0 → Inserted p true 0 p.ch)) ↔ SpecOk p := by
  by_cases hops : ops p = []
  · have hins (started : Bool) : Inserted p started 0 p.ch :=
      fun k hk => insertion_eq_spec_of_ops_nil hops
    exact iff_of_true ⟨hins _, fun _ => hins _⟩ (.inl hops)
  rw [SpecOk, or_iff_right hops]
  cases hmode : p.backOpMode with
  | none =>
    have hins (started : Bool) : Inserted p started 0 p.ch := by
      intro k hk
      have hspec : specInsertion p (0 + k) = [] := if_neg (by simp [hmode])
      rw [hspec, insertion]
      split <;> simp [hmode]
    exact iff_of_true ⟨hins _, fun _ => hins _⟩ trivial
  | timer =>
    have hins (started : Bool) : Inserted p started 0 p.ch ↔
        ∀ c ∈ p.ch, c.scanMode = .normalScanMode := by
      rw [List.forall_mem_iff_getElem]
      apply forall₂_congr
      intro k hk
      exact insertion_eq_spec_timer_iff hops hmode (hp.ch _ (List.getElem_mem hk))
    rw [hins, hins, and_iff_left_of_imp fun h _ => h]
  | cnt =>
    have hins (started : Bool) (k : ℕ) (hk : k < p.ch.length) :=
      insertion_eq_spec_cnt_iff (started || decide (k ≠ 0)) (0 + k) hops hmode
        (hp.ch _ (List.getElem_mem hk))
    dsimp only
    constructor
    · rintro ⟨hfirst, hmore⟩ k hk
      have h₁ := (hins false k hk).mp (hfirst k hk)
      have h₂ := fun hn => (hins true k hk).mp (hmore hn k hk)
      split_ifs at h₁ h₂ ⊢
      case pos =>
        intro hc
        refine ⟨by simpa using h₁ hc, ?_⟩
        by_contra hn
        simpa using h₂ hn hc
      case neg => simpa using h₁
    · intro h
      refine ⟨fun k hk => (hins false k hk).mpr ?_, fun hn k hk => (hins true k hk).mpr ?_⟩
      · have hk' := h k hk
        split_ifs at hk' ⊢
        case pos => exact fun hc => by simp [(hk' hc).1]
        case neg => simpa using hk'
      · have hk' := h k hk
        split_ifs at hk' ⊢
        case pos => exact fun hc => absurd (hk' hc).2 hn
        case neg => exact fun ht => ⟨rfl, (hk' (by simpa using ht)).2⟩

/-! ## Main results -/

theorem ops_reqInit (r : ScanReq) (opch : List ℕ) :
    ∀ op ∈ ops (reqInit r opch), op.scanMode = .backopMode := by
  have hback : (reqInit r opch).backOpCh = [] ∨
      ∃ dur, (reqInit r opch).backOpCh = opch.map (backOpChOf dur) := by
    rw [reqInit]
    dsimp only
    split_ifs
    · refine .inr ⟨r.backOpChDurMs, ?_⟩
      rw [updateChparam]
      dsimp only
      split_ifs <;> rfl
    · exact .inr ⟨r.backOpChDurMs, rfl⟩
    · exact .inl rfl
  intro op hop
  rw [ops] at hop
  have hchan := List.mem_takeWhile_imp hop
  have hmem := (List.takeWhile_sublist _).subset hop
  obtain hnil | ⟨dur, hmap⟩ := hback
  · simp [hnil] at hmem
  · rw [hmap, List.mem_map] at hmem
    obtain ⟨chan, -, rfl⟩ := hmem
    rw [backOpChOf] at hchan ⊢
    split_ifs at hchan ⊢
    · rfl
    · simp at hchan

/-- The scan begins with the list filled. -/
theorem at_reqInit (r : ScanReq) (opch : List ℕ) :
    At (reqInit r opch) (reqInit r opch) false 0 (reqInit r opch).ch (reqInit r opch).repeats := by
  obtain ⟨hqueue, hwf⟩ := foldl_pqPush (q := pqInit) PhlQueue.wf_init r.ch
  have hinit : (reqInit r opch).scanCh = none ∧ (reqInit r opch).chIdx = 0 ∧
      (reqInit r opch).chlist = r.ch.foldl pqPush pqInit ∧ (reqInit r opch).ch = r.ch := by
    rw [reqInit]
    dsimp only
    split_ifs
    · rw [updateChparam]
      dsimp only
      split_ifs <;> exact ⟨rfl, rfl, rfl, rfl⟩
    all_goals exact ⟨rfl, rfl, rfl, rfl⟩
  obtain ⟨hscan, hidx, hlist, hch⟩ := hinit
  exact
    { ch := rfl, backOpMode := rfl, backOpChCnt := rfl, backOpOffChDurMs := rfl, backOpCh := rfl
      started := by rw [hscan]; rfl
      chIdx := hidx
      queue := by rw [hlist, hqueue, hch]; rfl
      wf := by rwa [hlist]
      repeats := rfl }

theorem wf_reqInit (r : ScanReq) (opch : List ℕ) : Wf (reqInit r opch) where
  ch := by
    have hch : (reqInit r opch).ch = r.ch := by
      rw [reqInit]
      dsimp only
      split_ifs
      · rw [updateChparam]
        dsimp only
        split_ifs <;> rfl
      all_goals rfl
    rw [hch]
    exact r.modes
  ops := ops_reqInit r opch

/-- Without channels the first call ends the scan. -/
theorem At.null_of_ch_nil {p₀ p : ScanParam} {n : ℕ} (hch : p₀.ch = []) (hn : n < 255)
    (h : At p₀ p false 0 [] n) : selectChnl p = some .null := by
  obtain ⟨p', hloop, ⟨n', hn', h'⟩, hend⟩ := whileLoop_total
    (fun p : ScanParam => (pqPop p.chlist).isNone && decide (0 < p.repeats)) (some ∘ Scan.refill)
    (fun p => ∃ n, n < 255 ∧ At p₀ p false 0 [] n) (·.repeats)
    (by
      rintro p ⟨n, hn, h⟩ hcond
      obtain ⟨n, rfl⟩ : ∃ m, n = m + 1 := by
        refine Nat.exists_eq_succ_of_ne_zero fun hz => ?_
        simp [h.repeats, hz] at hcond
      have h' := h.refill (by omega)
      rw [hch] at h'
      refine ⟨_, rfl, ⟨n, by omega, h'⟩, ?_⟩
      rw [h'.repeats, h.repeats]
      exact Nat.lt_succ_self n)
    256 p ⟨n, hn, h⟩ (by rw [h.repeats]; omega)
  have hpop : pqPop p'.chlist = none := by rw [pqPop, h'.queue]
  rw [selectChnl, hloop, Option.map_some, selectFront, hpop]

/-- The channels come in the stated sequence if and only if the parameter meets the condition. -/
theorem sequence_spec_iff (r : ScanReq) (opch : List ℕ) (h : (reqInit r opch).repeats < 255) :
    Sequence (reqInit r opch) (spec (reqInit r opch)) ↔ SpecOk (reqInit r opch) := by
  have hat := at_reqInit r opch
  have hwf := wf_reqInit r opch
  rw [← inserted_iff_specOk hwf]
  by_cases hch : (reqInit r opch).ch = []
  · have hspec : spec (reqInit r opch) = [] := by
      rw [spec, hch, specPass, List.flatten_replicate_nil]
    have hins (started : Bool) : Inserted (reqInit r opch) started 0 (reqInit r opch).ch := by
      rw [hch]
      exact fun k hk => absurd hk (Nat.not_lt_zero k)
    rw [hspec, sequence_of_null (At.null_of_ch_nil hch h (hch ▸ hat))]
    exact iff_of_true rfl ⟨hins _, fun _ => hins _⟩
  · rw [hat.sequence_iff hwf hch h hwf.ch (fun hnil => absurd hnil hch)]
    exact rest_eq_spec_iff hwf

/-- Channels as a scan for networks asks for them. -/
def surveyCh (chan : ℕ) : PhlScanChannel := ⟨chan, 30, .normalScanMode⟩

/-- A scan of three channels in count mode. -/
def surveyReq (cnt : ℕ) : ScanReq where
  repeats := 0
  ch := [surveyCh 1, surveyCh 2, surveyCh 3]
  backOpMode := .cnt
  backOpChCnt := cnt
  backOpChDurMs := 30
  backOpOffChDurMs := 0
  modes := by decide

/-- One operating channel, after the third channel. -/
theorem sequence_spec_surveyReq :
    Sequence (reqInit (surveyReq 3) [6]) (spec (reqInit (surveyReq 3) [6])) := by
  apply (sequence_spec_iff (surveyReq 3) [6] (by decide)).mpr
  refine .inr fun k hk => ?_
  change (k + 1) % 3 = 0 → k ≠ 0 ∧ _
  intro hturn
  obtain rfl : k = 2 := by
    have hlt : k < 3 := hk
    omega
  exact ⟨by decide, rfl, rfl⟩

/-- With two operating channels the last one comes first. With the interval 1 there is none after
the first channel. With the interval 0 the second call divides by zero. -/
theorem surveyReq_not_spec :
    ¬Sequence (reqInit (surveyReq 3) [6, 36]) (spec (reqInit (surveyReq 3) [6, 36])) ∧
    ¬Sequence (reqInit (surveyReq 1) [6]) (spec (reqInit (surveyReq 1) [6])) ∧
    ∀ l, ¬Sequence (reqInit (surveyReq 0) [6]) l := by
  have hthree : Sequence (reqInit (surveyReq 3) [6, 36])
      [surveyCh 1, surveyCh 2, surveyCh 3, ⟨36, 30, .backopMode⟩, ⟨6, 30, .backopMode⟩] :=
    .next rfl (.next rfl (.next rfl (.next rfl (.next rfl (.done rfl)))))
  have hone : Sequence (reqInit (surveyReq 1) [6])
      [surveyCh 1, surveyCh 2, ⟨6, 30, .backopMode⟩, surveyCh 3, ⟨6, 30, .backopMode⟩] :=
    .next rfl (.next rfl (.next rfl (.next rfl (.next rfl (.done rfl)))))
  refine ⟨fun h => ?_, fun h => ?_, fun l h => ?_⟩
  · exact absurd (hthree.unique h) (by decide)
  · exact absurd (hone.unique h) (by decide)
  · obtain ⟨l', -, hl'⟩ := (sequence_of_channel rfl).mp h
    exact not_sequence_of_divideByZero rfl hl'

end Rtl88x2cu.Scan
