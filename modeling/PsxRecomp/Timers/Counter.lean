import Mathlib
import PsxRecomp.Library.Transducer

/-! Root counters: one timer, its interrupt line, the one-tick step and the fast path that
jumps to the nearer of the target and the wrap. The fast path is the iterated tick. -/
namespace PsxRecomp.Timers
open Transducer
set_option autoImplicit false

/-! ## Mode bits -/

def modeResetTarget : BitVec 32 := 1 <<< 3
def modeIrqTarget : BitVec 32 := 1 <<< 4
def modeIrqOverflow : BitVec 32 := 1 <<< 5
def modeIrqRepeat : BitVec 32 := 1 <<< 6
def modeIrqToggle : BitVec 32 := 1 <<< 7
def modeIrqRequest : BitVec 32 := 1 <<< 10
def modeTargetFlag : BitVec 32 := 1 <<< 11
def modeOverflowFlag : BitVec 32 := 1 <<< 12

/-! ## A timer and its interrupt -/

/-- One of `timers[3]` with its entry of `timer_frac[3]`; `irqLine` is the toggle-mode state. -/
structure Timer where
  counter : BitVec 16
  mode : BitVec 32
  target : BitVec 16
  irqLine : BitVec 32
  frac : ℕ
deriving DecidableEq

/-- A call `psx_irq_raise(bit, detail)`; the detail is the index of the timer. -/
structure IrqRaise where
  bit : ℕ
  detail : Fin 3
deriving DecidableEq

def timerIrq : Fin 3 → ℕ
  | 0 => 4
  | 1 => 5
  | 2 => 6

def raise (t : Fin 3) : IrqRaise := ⟨timerIrq t, t⟩

/-- `tm->mode |= bits` -/
def Timer.setBits (tm : Timer) (bits : BitVec 32) : Timer := { tm with mode := tm.mode ||| bits }

/-- `tm->mode &= ~bits` -/
def Timer.clearBits (tm : Timer) (bits : BitVec 32) : Timer := { tm with mode := tm.mode &&& ~~~bits }

/-- `tm->mode & bits` -/
def Timer.has (tm : Timer) (bits : BitVec 32) : Bool := tm.mode &&& bits ≠ 0

def Timer.flipLine (tm : Timer) : Timer := { tm with irqLine := tm.irqLine ^^^ 1 }

/-- The toggle or pulse part of `timer_fire_irq`. -/
def timerFireLine (t : Fin 3) : Step Timer IrqRaise := fun tm =>
  if tm.has modeIrqToggle then
    if tm.flipLine.irqLine ≠ 0 then (tm.flipLine.clearBits modeIrqRequest, [raise t])
    else (tm.flipLine.setBits modeIrqRequest, [])
  else
    -- the pulse clears the request bit, raises, and sets the bit again
    ((tm.clearBits modeIrqRequest).setBits modeIrqRequest, [raise t])

/-- A one-shot timer disarms both of its interrupts after it fired. -/
def timerDisarm : Step Timer IrqRaise := fun tm =>
  if tm.has modeIrqRepeat then (tm, [])
  else (tm.clearBits (modeIrqTarget ||| modeIrqOverflow), [])

def timerFireIrq (t : Fin 3) : Step Timer IrqRaise := seq (timerFireLine t) timerDisarm

/-- `if (tm->mode & armed) timer_fire_irq(t);` -/
def timerFireIfArmed (t : Fin 3) (armed : BitVec 32) : Step Timer IrqRaise := fun tm =>
  if tm.has armed then timerFireIrq t tm else (tm, [])

/-! ## What happens when the counter reaches its target or wraps -/

def timerResetCounter : Step Timer IrqRaise := fun tm =>
  if tm.has modeResetTarget then ({ tm with counter := 0 }, []) else (tm, [])

def timerReachTarget (t : Fin 3) : Step Timer IrqRaise := fun tm =>
  seq (timerFireIfArmed t modeIrqTarget) timerResetCounter (tm.setBits modeTargetFlag)

def timerOverflow (t : Fin 3) : Step Timer IrqRaise := fun tm =>
  timerFireIfArmed t modeIrqOverflow (tm.setBits modeOverflowFlag)

/-- The two `if` blocks that end both the tick and one round of the fast path. -/
def timerBoundary (t : Fin 3) (atTarget atWrap : Bool) : Step Timer IrqRaise :=
  seq (if atTarget then timerReachTarget t else skip) (if atWrap then timerOverflow t else skip)

@[simp] theorem timerBoundary_quiet (t : Fin 3) : timerBoundary t false false = skip := by
  simp [timerBoundary]

/-! ## The tick and the fast path -/

def Timer.count (tm : Timer) (n : ℕ) : Timer := { tm with counter := tm.counter + BitVec.ofNat 16 n }

def timerTickOne (t : Fin 3) : Step Timer IrqRaise := fun tm =>
  timerBoundary t ((tm.count 1).counter = tm.target) (tm.counter = 0xFFFF) (tm.count 1)

def targetDist (tm : Timer) : ℕ :=
  let d := (tm.target - tm.counter).toNat
  if d = 0 then 0x10000 else d

def overflowDist (tm : Timer) : ℕ := 0x10000 - tm.counter.toNat

/-- The length of one jump of the fast path. -/
def countStep (tm : Timer) (ticks : ℕ) : ℕ :=
  let step := ticks
  let step := if step > targetDist tm then targetDist tm else step
  let step := if step > overflowDist tm then overflowDist tm else step
  if step = 0 then 1 else step

theorem targetDist_pos (tm : Timer) : 0 < targetDist tm := by
  simp only [targetDist]
  split <;> omega

theorem overflowDist_pos (tm : Timer) : 0 < overflowDist tm := by
  have := tm.counter.isLt
  simp only [overflowDist]
  omega

theorem countStep_pos (tm : Timer) (ticks : ℕ) : 0 < countStep tm ticks := by
  simp only [countStep]
  split_ifs <;> omega

theorem countStep_eq (tm : Timer) {ticks : ℕ} (h : 0 < ticks) :
    countStep tm ticks = min ticks (min (targetDist tm) (overflowDist tm)) := by
  have ht := targetDist_pos tm
  have ho := overflowDist_pos tm
  simp only [countStep]
  split_ifs <;> omega

def timerAdvanceCounts (t : Fin 3) (ticks : ℕ) (tm : Timer) : Timer × List IrqRaise :=
  if ticks = 0 then (tm, []) else
  let step := countStep tm ticks
  let bounded := timerBoundary t (step = targetDist tm)
    (tm.counter.toNat + step > 0xFFFF ∨ step = overflowDist tm) (tm.count step)
  let rest := timerAdvanceCounts t (ticks - step) bounded.1
  (rest.1, bounded.2 ++ rest.2)
termination_by ticks
decreasing_by
  have := countStep_pos tm ticks
  omega

/-! ## Between two boundaries the tick only counts -/

@[simp] theorem count_zero (tm : Timer) : tm.count 0 = tm := by
  simp [Timer.count]

@[simp] theorem count_target (tm : Timer) (n : ℕ) : (tm.count n).target = tm.target := rfl

theorem count_count (tm : Timer) (m n : ℕ) : (tm.count m).count n = tm.count (m + n) := by
  simp only [Timer.count, BitVec.add_assoc, BitVec.ofNat_add]

/-- A tick taken `k` counts into a stretch that ends no earlier than the nearer boundary. -/
theorem tick_in_stretch (t : Fin 3) (tm : Timer) {k : ℕ} (ht : k + 1 ≤ targetDist tm)
    (ho : k + 1 ≤ overflowDist tm) :
    timerTickOne t (tm.count k) =
      timerBoundary t (k + 1 = targetDist tm) (k + 1 = overflowDist tm) (tm.count (k + 1)) := by
  have hc := tm.counter.isLt
  have htarget : ((tm.count k).count 1).counter = tm.target ↔ k + 1 = targetDist tm := by
    simp only [targetDist] at ht ⊢
    rw [count_count]
    simp only [Timer.count]
    split at ht <;> rename_i hd <;> simp only [overflowDist] at ho <;> simp only [hd, if_true, if_false] <;>
      bv_omega
  have hwrap : (tm.count k).counter = 0xFFFF ↔ k + 1 = overflowDist tm := by
    simp only [overflowDist, Timer.count] at ho ⊢
    bv_omega
  simp only [timerTickOne, count_count, count_target] at htarget ⊢
  simp only [htarget, hwrap]

theorem ticks_quiet (t : Fin 3) (tm : Timer) (k : ℕ) (ht : k < targetDist tm)
    (ho : k < overflowDist tm) : iterate (timerTickOne t) k tm = (tm.count k, []) := by
  induction k with
  | zero => simp
  | succ k ih =>
    have hk := ih (by omega) (by omega)
    rw [iterate_succ_last, seq_quiet _ _ hk, tick_in_stretch t tm (by omega) (by omega)]
    simp [Nat.ne_of_lt ht, Nat.ne_of_lt ho]

/-- A whole stretch: the quiet counts, then the boundary its last tick reaches, if any. -/
theorem ticks_stretch (t : Fin 3) (tm : Timer) {n : ℕ} (hn : 0 < n) (ht : n ≤ targetDist tm)
    (ho : n ≤ overflowDist tm) :
    iterate (timerTickOne t) n tm =
      timerBoundary t (n = targetDist tm) (n = overflowDist tm) (tm.count n) := by
  obtain ⟨k, rfl⟩ : ∃ k, n = k + 1 := ⟨n - 1, by omega⟩
  rw [iterate_succ_last, seq_quiet _ _ (ticks_quiet t tm k (by omega) (by omega)),
    tick_in_stretch t tm ht ho]

/-- The overflow test of the fast path, on the step it takes. -/
theorem overflow_test (tm : Timer) {step : ℕ} (ho : step ≤ overflowDist tm) :
    (tm.counter.toNat + step > 0xFFFF ∨ step = overflowDist tm) ↔ step = overflowDist tm := by
  have := tm.counter.isLt
  simp only [overflowDist] at ho ⊢
  omega

theorem timerAdvanceCounts_eq_iterate (t : Fin 3) (n : ℕ) (tm : Timer) :
    timerAdvanceCounts t n tm = iterate (timerTickOne t) n tm := by
  induction n using Nat.strongRecOn generalizing tm with
  | _ n ih =>
    rw [timerAdvanceCounts]
    by_cases hn : n = 0
    · subst hn
      simp
    · have hpos : 0 < n := Nat.pos_of_ne_zero hn
      have hstep := countStep_eq tm hpos
      have hs0 := countStep_pos tm n
      generalize hs : countStep tm n = step at *
      have hle : step ≤ n := by omega
      have ho : step ≤ overflowDist tm := by omega
      have hfirst := ticks_stretch t tm hs0 (by omega) ho
      simp only [if_neg hn, overflow_test tm ho]
      rw [ih (n - step) (by omega), ← hfirst]
      have hsplit : n = step + (n - step) := by omega
      conv_rhs => rw [hsplit, iterate_add]
      rfl

end PsxRecomp.Timers
