import Mathlib
import PsxRecomp.Timers.Advance

/-! The deadline of the root counters: `timers_cycles_to_irq` bounds from below the cycles until a
timer whose interrupt is unmasked fires. -/
namespace PsxRecomp.Timers
open Transducer
set_option autoImplicit false

/-! ## The deadline -/

/-- The standard of the display, which fixes `g_psx_hblank_cycles`. -/
inductive VideoStandard where
  | ntsc
  | pal
deriving DecidableEq

def VideoStandard.hblankCycles : VideoStandard → ℕ
  | .ntsc => 564480 / 263
  | .pal => 677376 / 314

def timerDivisor (hblank : ℕ) (t : Fin 3) (tm : Timer) : ℕ :=
  if t = 2 ∧ (clockSource tm = 2 ∨ clockSource tm = 3) then 8
  else if timerUsesSysclk t tm then 1
  else if t = 1 then hblank
  else if t = 0 then 5
  else 1

def uint32Max : ℕ := 0xFFFFFFFF

/-- The counts until the nearer of the armed events. -/
def irqTicks (tm : Timer) : ℕ :=
  let ticks := uint32Max
  let ticks := if tm.has modeIrqTarget then
    if targetDist tm < ticks then targetDist tm else ticks else ticks
  if tm.has modeIrqOverflow then
    if overflowDist tm < ticks then overflowDist tm else ticks
  else ticks

/-- One pass of the loop of `timers_cycles_to_irq`. -/
def nearerIrq (hblank : ℕ) (iMask : BitVec 32) (t : Fin 3) (tm : Timer) (best : ℕ) : ℕ :=
  if !iMask.getLsbD (timerIrq t) then best
  else if !tm.has modeIrqTarget && !tm.has modeIrqOverflow then best
  else if irqTicks tm = uint32Max then best
  else
    let cyc := irqTicks tm * timerDivisor hblank t tm
    let cyc := if cyc > tm.frac then cyc - tm.frac else 0
    let cyc := if cyc > uint32Max then uint32Max else cyc
    if cyc < best then cyc else best

def timersCyclesToIrq (hblank : ℕ) (iMask : BitVec 32) (timers : Fin 3 → Timer) : ℕ :=
  [0, 1, 2].foldl (fun best t => nearerIrq hblank iMask t (timers t) best) uint32Max

/-! ## Counting without firing -/

/-- `timer_fire_irq` has not been called: the line is where it was, and of the mode at most the
two flags of the counter have moved. -/
structure Unfired (tm tm' : Timer) : Prop where
  line : tm'.irqLine = tm.irqLine
  mode : tm'.mode &&& ~~~(modeTargetFlag ||| modeOverflowFlag) =
    tm.mode &&& ~~~(modeTargetFlag ||| modeOverflowFlag)

theorem Unfired.refl (tm : Timer) : Unfired tm tm := ⟨rfl, rfl⟩

theorem Unfired.trans {tm tm' tm'' : Timer} (h : Unfired tm tm') (h' : Unfired tm' tm'') :
    Unfired tm tm'' := ⟨h'.line.trans h.line, h'.mode.trans h.mode⟩

/-- Bits apart from the flags are as they were. -/
theorem Unfired.has {tm tm' : Timer} (h : Unfired tm tm') {bits : BitVec 32}
    (hbits : ~~~(modeTargetFlag ||| modeOverflowFlag) &&& bits = bits) : tm'.has bits = tm.has bits := by
  unfold Timer.has
  rw [← hbits, ← BitVec.and_assoc, ← BitVec.and_assoc, h.mode]

theorem unfired_setBits (tm : Timer) {bits : BitVec 32}
    (hbits : bits &&& ~~~(modeTargetFlag ||| modeOverflowFlag) = 0) : Unfired tm (tm.setBits bits) := by
  refine ⟨rfl, ?_⟩
  unfold Timer.setBits
  dsimp only
  rw [BitVec.and_or_distrib_right, hbits]
  exact BitVec.or_zero

/-- No armed event lies within the next `n` counts. -/
structure QuietCounts (tm : Timer) (n : ℕ) : Prop where
  target : tm.has modeIrqTarget = true → n < targetDist tm
  overflow : tm.has modeIrqOverflow = true → n < overflowDist tm

theorem has_target {tm tm' : Timer} (h : Unfired tm tm') :
    tm'.has modeIrqTarget = tm.has modeIrqTarget := h.has (by decide)

theorem has_overflow {tm tm' : Timer} (h : Unfired tm tm') :
    tm'.has modeIrqOverflow = tm.has modeIrqOverflow := h.has (by decide)

/-- The target of a timer that is not armed for it. -/
theorem reachTarget_unarmed (t : Fin 3) (tm : Timer) (h : tm.has modeIrqTarget = false) :
    ∃ tm', timerReachTarget t tm = (tm', []) ∧ Unfired tm tm' ∧ tm'.target = tm.target ∧
      (tm'.counter = tm.counter ∨ tm'.counter = 0) := by
  have hflag := @unfired_setBits tm modeTargetFlag (by decide)
  have hfire : timerFireIfArmed t modeIrqTarget (tm.setBits modeTargetFlag) =
      (tm.setBits modeTargetFlag, []) := by
    unfold timerFireIfArmed
    rw [has_target hflag, h]
    rfl
  unfold timerReachTarget
  rw [seq_quiet _ _ hfire]
  unfold timerResetCounter
  split
  · exact ⟨_, rfl, ⟨hflag.line, hflag.mode⟩, rfl, Or.inr rfl⟩
  · exact ⟨_, rfl, hflag, rfl, Or.inl rfl⟩

theorem overflow_unarmed (t : Fin 3) (tm : Timer) (h : tm.has modeIrqOverflow = false) :
    timerOverflow t tm = (tm.setBits modeOverflowFlag, []) := by
  unfold timerOverflow timerFireIfArmed
  rw [has_overflow (unfired_setBits tm (by decide)), h]
  rfl

/-- The distance to the target after one count that does not reach it. -/
theorem targetDist_next {tm tm' : Timer} (hcounter : tm'.counter = tm.counter + 1)
    (htarget : tm'.target = tm.target) (h : 1 < targetDist tm) :
    targetDist tm' + 1 = targetDist tm := by
  unfold targetDist at h ⊢
  dsimp only at h ⊢
  rw [hcounter, htarget]
  split at h <;> rename_i hd <;> simp only [hd, if_true, if_false] <;> split <;> bv_omega

/-- A tick before any armed event: nothing fires, and the events are one count nearer. -/
theorem unfired_tick (t : Fin 3) (tm : Timer) {n : ℕ} (h : QuietCounts tm (n + 1)) :
    ∃ tm', timerTickOne t tm = (tm', []) ∧ Unfired tm tm' ∧ QuietCounts tm' n := by
  have hcount : Unfired tm (tm.count 1) := ⟨rfl, rfl⟩
  have hreach : ∃ tm₁, (if decide ((tm.count 1).counter = tm.target) then timerReachTarget t else skip)
      (tm.count 1) = (tm₁, []) ∧ Unfired tm tm₁ ∧ tm₁.target = tm.target ∧
      (tm₁.counter = tm.counter + 1 ∨ tm.counter + 1 = tm.target ∧ tm₁.counter = 0) := by
    by_cases hat : (tm.count 1).counter = tm.target
    · have hunarmed : (tm.count 1).has modeIrqTarget = false := by
        by_contra harmed
        have hdist := h.target ((has_target hcount).symm.trans (Bool.eq_true_of_not_eq_false harmed))
        simp only [Timer.count] at hat
        unfold targetDist at hdist
        dsimp only at hdist
        split at hdist <;> bv_omega
      obtain ⟨tm₁, hrun, hunfired, htarget, hcounter⟩ := reachTarget_unarmed t _ hunarmed
      refine ⟨tm₁, by rw [if_pos (decide_eq_true hat)]; exact hrun, hcount.trans hunfired, htarget, ?_⟩
      rcases hcounter with hc | hc
      · exact Or.inl hc
      · exact Or.inr ⟨hat, hc⟩
    · exact ⟨_, by rw [if_neg (by simpa using hat)]; rfl, hcount, rfl, Or.inl rfl⟩
  obtain ⟨tm₁, hrun₁, hunfired₁, htarget₁, hcounter₁⟩ := hreach
  have hwrap : ∃ tm₂, (if decide (tm.counter = 0xFFFF) then timerOverflow t else skip) tm₁ = (tm₂, []) ∧
      Unfired tm₁ tm₂ ∧ tm₂.target = tm₁.target ∧ tm₂.counter = tm₁.counter := by
    by_cases hat : tm.counter = 0xFFFF
    · have hunarmed : tm₁.has modeIrqOverflow = false := by
        by_contra harmed
        have hdist := h.overflow ((has_overflow hunfired₁).symm.trans (Bool.eq_true_of_not_eq_false harmed))
        rw [overflowDist, hat] at hdist
        exact absurd hdist (by simp)
      exact ⟨_, by rw [if_pos (decide_eq_true hat)]; exact overflow_unarmed t tm₁ hunarmed,
        unfired_setBits tm₁ (by decide), rfl, rfl⟩
    · exact ⟨_, by rw [if_neg (by simpa using hat)]; rfl, Unfired.refl tm₁, rfl, rfl⟩
  obtain ⟨tm₂, hrun₂, hunfired₂, htarget₂, hcounter₂⟩ := hwrap
  have hunfired := hunfired₁.trans hunfired₂
  refine ⟨tm₂, ?_, hunfired, fun harmed => ?_, fun harmed => ?_⟩
  · unfold timerTickOne timerBoundary
    rw [seq_quiet _ _ hrun₁, hrun₂]
  · have hdist := h.target ((has_target hunfired).symm.trans harmed)
    have hnot : ¬(tm.counter + 1 = tm.target) := by
      intro hat
      unfold targetDist at hdist
      dsimp only at hdist
      split at hdist <;> bv_omega
    have hnext := targetDist_next (hcounter₂.trans (hcounter₁.resolve_right fun hc => hnot hc.1))
      (htarget₂.trans htarget₁) (by omega)
    omega
  · have hdist := h.overflow ((has_overflow hunfired).symm.trans harmed)
    unfold overflowDist at hdist ⊢
    rw [hcounter₂]
    rcases hcounter₁ with hc | ⟨-, hc⟩ <;> rw [hc] <;> bv_omega

theorem unfired_iterate (t : Fin 3) (n : ℕ) (tm : Timer) (h : QuietCounts tm n) :
    ∃ tm', iterate (timerTickOne t) n tm = (tm', []) ∧ Unfired tm tm' := by
  induction n generalizing tm with
  | zero => exact ⟨tm, rfl, Unfired.refl tm⟩
  | succ n ih =>
    obtain ⟨tm₁, hrun, hunfired, hquiet⟩ := unfired_tick t tm h
    obtain ⟨tm₂, hrest, hunfired'⟩ := ih tm₁ hquiet
    exact ⟨tm₂, by rw [iterate_succ, seq_quiet _ _ hrun, hrest], hunfired.trans hunfired'⟩

/-! ## Cycles and counts -/

/-- The counts of a span of cycles, no more than its whole divisors. -/
theorem timerAdvance_counts (std : VideoStandard) (cycles : ℕ) (t : Fin 3) (tm : Timer) :
    ∃ n r, timerAdvance std.hblankCycles cycles t tm = iterate (timerTickOne t) n (tm.setFrac r) ∧
      n * timerDivisor std.hblankCycles t tm ≤ tm.frac + cycles := by
  have hdivided : ∀ divisor, divisor ≠ 0 → ∃ n r,
      timerAdvanceDivided t cycles divisor tm = iterate (timerTickOne t) n (tm.setFrac r) ∧
        n * divisor ≤ tm.frac + cycles := by
    intro divisor hd
    refine ⟨(tm.frac + cycles) % 2 ^ 32 / divisor, (tm.frac + cycles) % 2 ^ 32 % divisor, ?_, ?_⟩
    · simp only [timerAdvanceDivided, usedDivisor, if_neg hd]
      split_ifs with h0
      · exact timerAdvanceCounts_eq_iterate t _ _
      · rw [not_not.1 h0]
        rfl
    · exact (Nat.div_mul_le_self _ _).trans (Nat.mod_le _ _)
  have hblank : std.hblankCycles ≠ 0 := by cases std <;> decide
  unfold timerAdvance timerDivisor
  split_ifs with h8 hsys h1 h0
  · exact hdivided 8 (by decide)
  · refine ⟨cycles, tm.frac, ?_, by omega⟩
    rw [timerAdvanceCounts_eq_iterate]
    rfl
  · exact hdivided _ hblank
  · exact hdivided 5 (by decide)
  · exact ⟨0, tm.frac, rfl, by omega⟩

/-! ## The deadline is not late -/

theorem nearerIrq_le (hblank : ℕ) (iMask : BitVec 32) (t : Fin 3) (tm : Timer) (best : ℕ) :
    nearerIrq hblank iMask t tm best ≤ best := by
  unfold nearerIrq
  dsimp only
  split_ifs <;> omega

theorem irqTicks_le (tm : Timer) : (tm.has modeIrqTarget = true → irqTicks tm ≤ targetDist tm) ∧
    (tm.has modeIrqOverflow = true → irqTicks tm ≤ overflowDist tm) := by
  unfold irqTicks
  dsimp only
  constructor
  · intro harmed
    rw [if_pos harmed]
    split_ifs <;> omega
  · intro harmed
    rw [if_pos harmed]
    split_ifs <;> omega

theorem targetDist_le (tm : Timer) : targetDist tm ≤ 0x10000 := by
  unfold targetDist
  dsimp only
  split
  · exact le_rfl
  · exact (tm.target - tm.counter).isLt.le

theorem armed_irqTicks {tm : Timer} (h : tm.has modeIrqTarget = true ∨ tm.has modeIrqOverflow = true) :
    irqTicks tm ≤ 0x10000 := by
  rcases h with h | h
  · exact ((irqTicks_le tm).1 h).trans (targetDist_le tm)
  · exact ((irqTicks_le tm).2 h).trans (Nat.sub_le _ _)

/-- The pass of an unmasked and armed timer. -/
theorem nearerIrq_armed {std : VideoStandard} {iMask : BitVec 32} {t : Fin 3} {tm : Timer} (best : ℕ)
    (hmask : iMask.getLsbD (timerIrq t) = true)
    (h : tm.has modeIrqTarget = true ∨ tm.has modeIrqOverflow = true) :
    nearerIrq std.hblankCycles iMask t tm best =
      min best (irqTicks tm * timerDivisor std.hblankCycles t tm - tm.frac) := by
  have hticks := armed_irqTicks h
  have hdiv : timerDivisor std.hblankCycles t tm ≤ 2157 := by
    unfold timerDivisor
    cases std <;> split_ifs <;> decide
  have hcyc := Nat.mul_le_mul hticks hdiv
  have harmed : (!tm.has modeIrqTarget && !tm.has modeIrqOverflow) = false := by
    rcases h with h | h <;> rw [h] <;> simp
  unfold nearerIrq uint32Max
  dsimp only
  rw [hmask, harmed, if_neg (by decide), if_neg (by decide), if_neg (by omega)]
  split_ifs <;> omega

theorem nearerIrq_quiet {std : VideoStandard} {iMask : BitVec 32} {t : Fin 3} {tm : Timer} {best n k : ℕ}
    (hmask : iMask.getLsbD (timerIrq t) = true) (hn : n < nearerIrq std.hblankCycles iMask t tm best)
    (hk : k * timerDivisor std.hblankCycles t tm ≤ tm.frac + n) : QuietCounts tm k := by
  have hlt : ∀ h : tm.has modeIrqTarget = true ∨ tm.has modeIrqOverflow = true, k < irqTicks tm := by
    intro h
    rw [nearerIrq_armed best hmask h] at hn
    have hcyc : k * timerDivisor std.hblankCycles t tm <
        irqTicks tm * timerDivisor std.hblankCycles t tm := by omega
    exact lt_of_mul_lt_mul_right hcyc (Nat.zero_le _)
  exact ⟨fun h => (hlt (Or.inl h)).trans_le ((irqTicks_le tm).1 h),
    fun h => (hlt (Or.inr h)).trans_le ((irqTicks_le tm).2 h)⟩

/-- The loop keeps the least of its passes. -/
theorem timersCyclesToIrq_le (hblank : ℕ) (iMask : BitVec 32) (timers : Fin 3 → Timer) (t : Fin 3) :
    ∃ best, best ≤ uint32Max ∧
      timersCyclesToIrq hblank iMask timers ≤ nearerIrq hblank iMask t (timers t) best := by
  have hle := fun t best => nearerIrq_le hblank iMask t (timers t) best
  refine ⟨([0, 1, 2].take t.val).foldl (fun best t => nearerIrq hblank iMask t (timers t) best)
    uint32Max, ?_, ?_⟩
  · fin_cases t
    · exact le_rfl
    · exact hle 0 _
    · exact (hle 1 _).trans (hle 0 _)
  · fin_cases t
    · exact (hle 2 _).trans (hle 1 _)
    · exact hle 2 _
    · exact le_rfl

/-- A span of cycles in which no armed event of a timer lies. -/
theorem timersAdvance_unfired {std : VideoStandard} {timers : Fin 3 → Timer} {t : Fin 3} {n : ℕ}
    (h : ∀ k, k * timerDivisor std.hblankCycles t (timers t) ≤ (timers t).frac + n →
      QuietCounts (timers t) k) :
    (timersAdvance std.hblankCycles n timers).2.filter (fun e => e.detail = t) = [] ∧
      Unfired (timers t) ((timersAdvance std.hblankCycles n timers).1 t) := by
  by_cases hn : n = 0
  · rw [hn, timersAdvance_zero]
    exact ⟨rfl, Unfired.refl _⟩
  · rw [timersAdvance_filter _ _ _ hn, timersAdvance_fst _ _ _ hn]
    obtain ⟨k, r, hrun, hk⟩ := timerAdvance_counts std n t (timers t)
    have hquiet := h k hk
    obtain ⟨tm', hticks, hunfired⟩ := unfired_iterate t k (timers t) hquiet
    rw [hrun, ticks_setFrac, hticks]
    exact ⟨rfl, ⟨hunfired.line, hunfired.mode⟩⟩

theorem unfired_cuts {std : VideoStandard} {t : Fin 3} (ns : List ℕ) (timers : Fin 3 → Timer)
    (htarget : (timers t).has modeIrqTarget = false) (hoverflow : (timers t).has modeIrqOverflow = false) :
    (runCuts (timersAdvance std.hblankCycles) ns timers).2.filter (fun e => e.detail = t) = [] ∧
      Unfired (timers t) ((runCuts (timersAdvance std.hblankCycles) ns timers).1 t) := by
  induction ns generalizing timers with
  | nil => exact ⟨rfl, Unfired.refl _⟩
  | cons n ns ih =>
    obtain ⟨hquiet, hunfired⟩ := @timersAdvance_unfired std timers t n
      fun k _ => ⟨fun h => absurd (htarget.symm.trans h) (by decide),
        fun h => absurd (hoverflow.symm.trans h) (by decide)⟩
    obtain ⟨hrest, hunfired'⟩ := ih (timersAdvance std.hblankCycles n timers).1
      ((has_target hunfired).trans htarget) ((has_overflow hunfired).trans hoverflow)
    rw [runCuts, seq_snd, seq_fst, List.filter_append, hquiet, hrest]
    exact ⟨rfl, hunfired.trans hunfired'⟩

/-- Short of the deadline no unmasked timer fires, and where there is no deadline none ever does. -/
theorem timersCyclesToIrq_not_late (std : VideoStandard) (iMask : BitVec 32) (timers : Fin 3 → Timer)
    (t : Fin 3) (hmask : iMask.getLsbD (timerIrq t) = true) :
    (∀ n < timersCyclesToIrq std.hblankCycles iMask timers,
      (timersAdvance std.hblankCycles n timers).2.filter (fun e => e.detail = t) = [] ∧
        Unfired (timers t) ((timersAdvance std.hblankCycles n timers).1 t)) ∧
    (timersCyclesToIrq std.hblankCycles iMask timers = uint32Max → ∀ ns,
      (runCuts (timersAdvance std.hblankCycles) ns timers).2.filter (fun e => e.detail = t) = [] ∧
        Unfired (timers t) ((runCuts (timersAdvance std.hblankCycles) ns timers).1 t)) := by
  obtain ⟨best, hbest, hle⟩ := timersCyclesToIrq_le std.hblankCycles iMask timers t
  constructor
  · intro n hn
    exact timersAdvance_unfired fun k hk => nearerIrq_quiet hmask (hn.trans_le hle) hk
  · intro hmax ns
    have hunarmed : ¬((timers t).has modeIrqTarget = true ∨ (timers t).has modeIrqOverflow = true) := by
      intro harmed
      have hticks := armed_irqTicks harmed
      have hdiv : timerDivisor std.hblankCycles t (timers t) ≤ 2157 := by
        unfold timerDivisor
        cases std <;> split_ifs <;> decide
      have hcyc := Nat.mul_le_mul hticks hdiv
      rw [nearerIrq_armed best hmask harmed, hmax] at hle
      unfold uint32Max at hle
      omega
    rw [not_or, Bool.not_eq_true, Bool.not_eq_true] at hunarmed
    exact unfired_cuts ns timers hunarmed.1 hunarmed.2

/-- Timer 1 has one line to go to its target and carries 2100 cycles of it. -/
theorem timersCyclesToIrq_nearTarget :
    timersCyclesToIrq 2146 0x20 nearTarget = 46 ∧
      (timersAdvance 2146 45 nearTarget).2.filter (fun e => e.detail = 1) = [] := by
  have hdue : timersCyclesToIrq VideoStandard.ntsc.hblankCycles 0x20 nearTarget = 46 := by decide
  exact ⟨hdue, ((timersCyclesToIrq_not_late .ntsc 0x20 nearTarget 1 (by decide)).1 45
    (by rw [hdue]; decide)).1⟩

end PsxRecomp.Timers
