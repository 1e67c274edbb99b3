import Mathlib
import PsxRecomp.Timers.Counter

/-! The block of three root counters: each timer counts system clocks or a divided clock, and
the divided clocks carry their remainder. Cutting a span of cycles in two leaves the same block
and the same interrupts of each timer. -/
namespace PsxRecomp.Timers
open Transducer
set_option autoImplicit false

-- Literals of the index type find this by name, so that a definition holds no proof of its own.
scoped instance neZero_three : NeZero 3 := ⟨by decide⟩

/-! ## The clock of a timer -/

def clockSource (tm : Timer) : BitVec 32 := (tm.mode >>> 8) &&& 3

def timerUsesSysclk (t : Fin 3) (tm : Timer) : Bool :=
  match t with
  | 0 => clockSource tm = 0 || clockSource tm = 2
  | 1 => clockSource tm = 0 || clockSource tm = 2
  | 2 => clockSource tm = 0 || clockSource tm = 1

def Timer.setFrac (tm : Timer) (f : ℕ) : Timer := { tm with frac := f }

/-- `if (divisor == 0) divisor = 1;` -/
def usedDivisor (divisor : ℕ) : ℕ := if divisor = 0 then 1 else divisor

def timerAdvanceDivided (t : Fin 3) (cycles divisor : ℕ) : Step Timer IrqRaise := fun tm =>
  let divisor := usedDivisor divisor
  let total := (tm.frac + cycles) % 2 ^ 32
  let ticks := total / divisor
  let tm := tm.setFrac (total % divisor)
  if ticks ≠ 0 then timerAdvanceCounts t ticks tm else (tm, [])

/-- One pass of the loop of `timers_advance`; `hblank` is `g_psx_hblank_cycles`. -/
def timerAdvance (hblank cycles : ℕ) (t : Fin 3) : Step Timer IrqRaise := fun tm =>
  if t = 2 ∧ (clockSource tm = 2 ∨ clockSource tm = 3) then timerAdvanceDivided t cycles 8 tm
  else if timerUsesSysclk t tm then timerAdvanceCounts t cycles tm
  else if t = 1 then timerAdvanceDivided t cycles hblank tm
  else if t = 0 then timerAdvanceDivided t cycles 5 tm
  else (tm, [])

def timersAdvance (hblank cycles : ℕ) : Step (Fin 3 → Timer) IrqRaise := fun timers =>
  if cycles = 0 then (timers, []) else sweep (timerAdvance hblank cycles) [0, 1, 2] timers

/-! ## Ticks keep the clock source and ignore the remainder -/

theorem setBits_source (tm : Timer) {bits : BitVec 32} (h : (bits >>> 8) &&& (3 : BitVec 32) = 0#32) :
    clockSource (tm.setBits bits) = clockSource tm := by
  simp only [clockSource, Timer.setBits]
  rw [BitVec.ushiftRight_or_distrib, BitVec.and_or_distrib_right, h, BitVec.or_zero]

theorem clearBits_source (tm : Timer) {bits : BitVec 32} (h : (~~~bits >>> 8) &&& (3 : BitVec 32) = 3) :
    clockSource (tm.clearBits bits) = clockSource tm := by
  simp only [clockSource, Timer.clearBits]
  rw [BitVec.ushiftRight_and_distrib, BitVec.and_assoc, h]

theorem fire_source (t : Fin 3) (tm : Timer) :
    clockSource (timerFireIrq t tm).1 = clockSource tm := by
  have hline : clockSource (timerFireLine t tm).1 = clockSource tm := by
    rw [timerFireLine]
    split_ifs
    · exact clearBits_source _ (by decide)
    · exact setBits_source _ (by decide)
    · exact (setBits_source _ (by decide)).trans (clearBits_source _ (by decide))
  rw [timerFireIrq, seq_fst, ← hline, timerDisarm]
  split_ifs
  · rfl
  · exact clearBits_source _ (by decide)

theorem armed_source (t : Fin 3) (armed : BitVec 32) (tm : Timer) :
    clockSource (timerFireIfArmed t armed tm).1 = clockSource tm := by
  rw [timerFireIfArmed]
  split_ifs
  · exact fire_source t tm
  · rfl

theorem boundary_source (t : Fin 3) (atTarget atWrap : Bool) (tm : Timer) :
    clockSource (timerBoundary t atTarget atWrap tm).1 = clockSource tm := by
  have hreset : ∀ tm, clockSource (timerResetCounter tm).1 = clockSource tm := by
    intro tm
    rw [timerResetCounter]
    split_ifs <;> rfl
  have hreach : ∀ tm, clockSource (timerReachTarget t tm).1 = clockSource tm := by
    intro tm
    rw [timerReachTarget, seq_fst, hreset, armed_source, setBits_source _ (by decide)]
  have hover : ∀ tm, clockSource (timerOverflow t tm).1 = clockSource tm := by
    intro tm
    rw [timerOverflow, armed_source, setBits_source _ (by decide)]
  cases atTarget <;> cases atWrap <;> simp [timerBoundary, hreach, hover]

theorem ticks_source (t : Fin 3) (n : ℕ) (tm : Timer) :
    clockSource (iterate (timerTickOne t) n tm).1 = clockSource tm := by
  induction n with
  | zero => rfl
  | succ n ih =>
    rw [iterate_succ_last, seq_fst, timerTickOne, boundary_source, ← ih]
    rfl

/-- `timer_frac` is no business of the counter: it may be set before or after a step. -/
def IgnoresFrac (f : Step Timer IrqRaise) : Prop :=
  ∀ tm r, f (tm.setFrac r) = ((f tm).1.setFrac r, (f tm).2)

theorem ignoresFrac_skip : IgnoresFrac skip := fun _ _ => rfl

theorem IgnoresFrac.seq {f g : Step Timer IrqRaise} (hf : IgnoresFrac f) (hg : IgnoresFrac g) :
    IgnoresFrac (seq f g) := by
  intro tm r
  simp only [Transducer.seq, hf tm r, hg (f tm).1 r]

theorem IgnoresFrac.iterate {f : Step Timer IrqRaise} (hf : IgnoresFrac f) (n : ℕ) :
    IgnoresFrac (iterate f n) := by
  induction n with
  | zero => exact ignoresFrac_skip
  | succ n ih => exact hf.seq ih

theorem fire_ignoresFrac (t : Fin 3) : IgnoresFrac (timerFireIrq t) := by
  apply IgnoresFrac.seq
  · intro tm r
    change (if tm.has modeIrqToggle then if tm.flipLine.irqLine ≠ 0 then _ else _ else _) = _
    rw [timerFireLine]
    split_ifs <;> rfl
  · intro tm r
    change (if tm.has modeIrqRepeat then _ else _) = _
    rw [timerDisarm]
    split_ifs <;> rfl

theorem armed_ignoresFrac (t : Fin 3) (armed : BitVec 32) :
    IgnoresFrac (timerFireIfArmed t armed) := by
  intro tm r
  change (if tm.has armed then timerFireIrq t (tm.setFrac r) else _) = _
  rw [timerFireIfArmed, fire_ignoresFrac t tm r]
  split_ifs <;> rfl

theorem reach_ignoresFrac (t : Fin 3) : IgnoresFrac (timerReachTarget t) := by
  have hreset : IgnoresFrac timerResetCounter := by
    intro tm r
    change (if tm.has modeResetTarget then _ else _) = _
    rw [timerResetCounter]
    split_ifs <;> rfl
  exact fun tm r => ((armed_ignoresFrac t _).seq hreset) (tm.setBits modeTargetFlag) r

theorem overflow_ignoresFrac (t : Fin 3) : IgnoresFrac (timerOverflow t) :=
  fun tm r => armed_ignoresFrac t _ (tm.setBits modeOverflowFlag) r

theorem boundary_ignoresFrac (t : Fin 3) (atTarget atWrap : Bool) :
    IgnoresFrac (timerBoundary t atTarget atWrap) := by
  apply IgnoresFrac.seq
  · cases atTarget
    · exact ignoresFrac_skip
    · exact reach_ignoresFrac t
  · cases atWrap
    · exact ignoresFrac_skip
    · exact overflow_ignoresFrac t

theorem tick_ignoresFrac (t : Fin 3) : IgnoresFrac (timerTickOne t) := fun tm r =>
  boundary_ignoresFrac t _ _ (tm.count 1) r

/-! ## Every raise names its timer -/

theorem armed_detail (t : Fin 3) (armed : BitVec 32) (tm : Timer) :
    ∀ e ∈ (timerFireIfArmed t armed tm).2, e.detail = t := by
  simp only [timerFireIfArmed, timerFireIrq, timerFireLine, timerDisarm, seq]
  split_ifs <;> simp [raise]

theorem boundary_detail (t : Fin 3) (atTarget atWrap : Bool) (tm : Timer) :
    ∀ e ∈ (timerBoundary t atTarget atWrap tm).2, e.detail = t := by
  have hreset : ∀ tm, (timerResetCounter tm).2 = [] := by
    intro tm
    rw [timerResetCounter]
    split_ifs <;> rfl
  have hreach : ∀ tm, ∀ e ∈ (timerReachTarget t tm).2, e.detail = t := by
    intro tm
    rw [timerReachTarget, seq_snd, hreset, List.append_nil]
    exact armed_detail t _ _
  have hover : ∀ tm, ∀ e ∈ (timerOverflow t tm).2, e.detail = t :=
    fun tm => armed_detail t _ _
  intro e he
  rw [timerBoundary, seq_snd, List.mem_append] at he
  rcases he with he | he
  · cases atTarget
    · cases he
    · exact hreach _ e he
  · cases atWrap
    · cases he
    · exact hover _ e he

theorem ticks_detail (t : Fin 3) (n : ℕ) (tm : Timer) :
    ∀ e ∈ (iterate (timerTickOne t) n tm).2, e.detail = t := by
  induction n with
  | zero => simp
  | succ n ih =>
    intro e he
    rw [iterate_succ_last, seq_snd, List.mem_append] at he
    rcases he with he | he
    · exact ih e he
    · exact boundary_detail t _ _ _ e he

theorem counts_detail (t : Fin 3) (n : ℕ) (tm : Timer) :
    ∀ e ∈ (timerAdvanceCounts t n tm).2, e.detail = t := by
  rw [timerAdvanceCounts_eq_iterate]
  exact ticks_detail t n tm

theorem divided_detail (t : Fin 3) (cycles divisor : ℕ) (tm : Timer) :
    ∀ e ∈ (timerAdvanceDivided t cycles divisor tm).2, e.detail = t := by
  simp only [timerAdvanceDivided]
  split_ifs
  · exact counts_detail t _ _
  · simp

theorem timerAdvance_detail (hblank cycles : ℕ) (t : Fin 3) (tm : Timer) :
    ∀ e ∈ (timerAdvance hblank cycles t tm).2, e.detail = t := by
  simp only [timerAdvance]
  split_ifs
  · exact divided_detail t _ _ _
  · exact counts_detail t _ _
  · exact divided_detail t _ _ _
  · exact divided_detail t _ _ _
  · simp

/-! ## Two spans of cycles -/

/-- The divided clock without its special case: no ticks are the empty iteration. -/
theorem divided_eq (t : Fin 3) (cycles divisor : ℕ) (tm : Timer)
    (hfit : tm.frac + cycles < 2 ^ 32) :
    timerAdvanceDivided t cycles divisor tm =
      iterate (timerTickOne t) ((tm.frac + cycles) / usedDivisor divisor)
        (tm.setFrac ((tm.frac + cycles) % usedDivisor divisor)) := by
  simp only [timerAdvanceDivided, Nat.mod_eq_of_lt hfit]
  by_cases h : (tm.frac + cycles) / usedDivisor divisor = 0
  · simp [h]
  · simp [h, timerAdvanceCounts_eq_iterate]

theorem carry_div (f a b d : ℕ) (hd : 0 < d) :
    (f + a) / d + ((f + a) % d + b) / d = (f + (a + b)) / d := by
  have h : f + (a + b) = (f + a) % d + b + d * ((f + a) / d) := by
    have := Nat.mod_add_div (f + a) d
    omega
  rw [h, Nat.add_mul_div_left _ _ hd, Nat.add_comm]

theorem carry_mod (f a b d : ℕ) : ((f + a) % d + b) % d = (f + (a + b)) % d := by
  rw [Nat.mod_add_mod, Nat.add_assoc]

@[simp] theorem setFrac_frac (tm : Timer) (r : ℕ) : (tm.setFrac r).frac = r := rfl

@[simp] theorem setFrac_setFrac (tm : Timer) (q r : ℕ) : (tm.setFrac q).setFrac r = tm.setFrac r := rfl

theorem ticks_setFrac (t : Fin 3) (n : ℕ) (tm : Timer) (r : ℕ) :
    iterate (timerTickOne t) n (tm.setFrac r) =
      ((iterate (timerTickOne t) n tm).1.setFrac r, (iterate (timerTickOne t) n tm).2) :=
  (tick_ignoresFrac t).iterate n tm r

theorem divided_add (t : Fin 3) (a b divisor : ℕ) (tm : Timer)
    (hfit : tm.frac + a + b < 2 ^ 32) :
    timerAdvanceDivided t (a + b) divisor tm =
      seq (timerAdvanceDivided t a divisor) (timerAdvanceDivided t b divisor) tm := by
  have hd : 0 < usedDivisor divisor := by
    rw [usedDivisor]
    split_ifs <;> omega
  have hrem : (tm.frac + a) % usedDivisor divisor ≤ tm.frac + a := Nat.mod_le _ _
  have hfirst := divided_eq t a divisor tm (by omega)
  rw [ticks_setFrac] at hfirst
  have hsecond := divided_eq t b divisor
    ((iterate (timerTickOne t) ((tm.frac + a) / usedDivisor divisor) tm).1.setFrac
      ((tm.frac + a) % usedDivisor divisor)) (by rw [setFrac_frac]; omega)
  rw [setFrac_frac, setFrac_setFrac, ticks_setFrac, carry_mod] at hsecond
  rw [divided_eq t (a + b) divisor tm (by omega), ticks_setFrac, ← carry_div _ _ _ _ hd,
    iterate_add]
  simp only [Transducer.seq, hfirst, hsecond]

theorem divided_source (t : Fin 3) (cycles divisor : ℕ) (tm : Timer) :
    clockSource (timerAdvanceDivided t cycles divisor tm).1 = clockSource tm := by
  have hset : ∀ r, clockSource (tm.setFrac r) = clockSource tm := fun _ => rfl
  simp only [timerAdvanceDivided]
  split_ifs
  · rw [timerAdvanceCounts_eq_iterate, ticks_source, hset]
  · exact hset _

theorem counts_source (t : Fin 3) (n : ℕ) (tm : Timer) :
    clockSource (timerAdvanceCounts t n tm).1 = clockSource tm := by
  rw [timerAdvanceCounts_eq_iterate, ticks_source]

theorem counts_add (t : Fin 3) (a b : ℕ) (tm : Timer) :
    timerAdvanceCounts t (a + b) tm =
      seq (timerAdvanceCounts t a) (timerAdvanceCounts t b) tm := by
  simp only [Transducer.seq, timerAdvanceCounts_eq_iterate, iterate_add]

/-- The step a timer takes depends on its clock source alone. -/
theorem timerAdvance_add (hblank a b : ℕ) (t : Fin 3) (tm : Timer)
    (hfit : tm.frac + a + b < 2 ^ 32) :
    timerAdvance hblank (a + b) t tm =
      seq (timerAdvance hblank a t) (timerAdvance hblank b t) tm := by
  have hsys : ∀ tm', clockSource tm' = clockSource tm →
      timerUsesSysclk t tm' = timerUsesSysclk t tm := by
    intro tm' h
    simp only [timerUsesSysclk, h]
  by_cases h8 : t = 2 ∧ (clockSource tm = 2 ∨ clockSource tm = 3)
  · simp only [Transducer.seq, timerAdvance, divided_source, if_pos h8]
    exact divided_add t a b 8 tm hfit
  by_cases hs : timerUsesSysclk t tm = true
  · simp only [Transducer.seq, timerAdvance, if_neg h8, if_pos hs, counts_source,
      hsys _ (counts_source t a tm)]
    exact counts_add t a b tm
  by_cases h1 : t = 1
  · simp only [Transducer.seq, timerAdvance, if_neg h8, if_neg hs, if_pos h1, divided_source,
      hsys _ (divided_source t a hblank tm)]
    exact divided_add t a b hblank tm hfit
  by_cases h0 : t = 0
  · simp only [Transducer.seq, timerAdvance, if_neg h8, if_neg hs, if_neg h1, if_pos h0,
      divided_source, hsys _ (divided_source t a 5 tm)]
    exact divided_add t a b 5 tm hfit
  · simp only [Transducer.seq, timerAdvance, if_neg h8, if_neg hs, if_neg h1, if_neg h0,
      List.append_nil]

/-! ## The block -/

theorem timersAdvance_fst (hblank cycles : ℕ) (timers : Fin 3 → Timer) (hc : cycles ≠ 0)
    (t : Fin 3) :
    (timersAdvance hblank cycles timers).1 t = (timerAdvance hblank cycles t (timers t)).1 := by
  rw [timersAdvance, if_neg hc]
  exact sweep_fst_of_mem _ (by decide) (by fin_cases t <;> simp) timers

theorem timersAdvance_filter (hblank cycles : ℕ) (timers : Fin 3 → Timer) (hc : cycles ≠ 0)
    (t : Fin 3) :
    (timersAdvance hblank cycles timers).2.filter (fun e => e.detail = t) =
      (timerAdvance hblank cycles t (timers t)).2 := by
  rw [timersAdvance, if_neg hc]
  exact sweep_filter_of_mem _ IrqRaise.detail (fun t tm => timerAdvance_detail hblank cycles t tm)
    (by decide) (by fin_cases t <;> simp) timers

theorem timersAdvance_zero (hblank : ℕ) : timersAdvance hblank 0 = skip := rfl

/-- Two consecutive spans leave the block of one span, and every timer raises the same
interrupts in the same order; one timer's fast path is the iterated tick. -/
theorem timersAdvance_split (hblank a b : ℕ) (timers : Fin 3 → Timer)
    (hfit : ∀ t, (timers t).frac + a + b < 2 ^ 32) :
    (seq (timersAdvance hblank a) (timersAdvance hblank b) timers).1 =
        (timersAdvance hblank (a + b) timers).1 ∧
      (∀ t, (seq (timersAdvance hblank a) (timersAdvance hblank b) timers).2.filter
          (fun e => e.detail = t) =
        (timersAdvance hblank (a + b) timers).2.filter (fun e => e.detail = t)) ∧
      ∀ t n tm, timerAdvanceCounts t n tm = iterate (timerTickOne t) n tm := by
  refine ⟨?_, ?_, timerAdvanceCounts_eq_iterate⟩
  · by_cases ha : a = 0
    · rw [ha, timersAdvance_zero, skip_seq, Nat.zero_add]
    by_cases hb : b = 0
    · rw [hb, timersAdvance_zero, seq_skip, Nat.add_zero]
    funext t
    rw [seq_fst, timersAdvance_fst _ _ _ hb, timersAdvance_fst _ _ _ ha,
      timersAdvance_fst _ _ _ (by omega), timerAdvance_add hblank a b t _ (hfit t)]
    rfl
  · intro t
    by_cases ha : a = 0
    · rw [ha, timersAdvance_zero, skip_seq, Nat.zero_add]
    by_cases hb : b = 0
    · rw [hb, timersAdvance_zero, seq_skip, Nat.add_zero]
    rw [seq_snd, List.filter_append, timersAdvance_filter _ _ _ ha, timersAdvance_filter _ _ _ hb,
      timersAdvance_fst _ _ _ ha, timersAdvance_filter _ _ _ (by omega),
      timerAdvance_add hblank a b t _ (hfit t)]
    rfl

/-- Timer 1 on the HBlank clock (mode bit 8) stops one line short of its target, with a line and
a bit to go; timers 0 and 2 count system clocks into their wraps. -/
def nearTarget : Fin 3 → Timer
  | 0 => ⟨0xFFFE, 0x0020, 0xFFFF, 0, 0⟩
  | 1 => ⟨0x0006, 0x0158, 0x0007, 0, 2100⟩
  | 2 => ⟨0xFFF0, 0x00F0, 0x0000, 1, 0⟩

theorem timersAdvance_split_nearTarget :
    (∀ t, (nearTarget t).frac + 30 + 70 < 2 ^ 32) ∧
      (seq (timersAdvance 2146 30) (timersAdvance 2146 70) nearTarget).1 =
        (timersAdvance 2146 (30 + 70) nearTarget).1 := by
  have hfit : ∀ t, (nearTarget t).frac + 30 + 70 < 2 ^ 32 := by decide
  exact ⟨hfit, (timersAdvance_split 2146 30 70 nearTarget hfit).1⟩

end PsxRecomp.Timers
