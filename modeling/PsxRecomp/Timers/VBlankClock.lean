import Mathlib
import PsxRecomp.Library.Overflow
import PsxRecomp.Library.UpperSearch

/-! The frame clock: VBlank periods at an exact rational rate, and the conversions between frames
and cycles. All of it is exact but for one search whose interval fills the whole 64-bit range. -/
namespace PsxRecomp.VBlankClock
open Overflow UpperSearch
set_option autoImplicit false

/-! ## The clock -/

structure PSXVBlankClock where
  periodFloor : ℕ
  periodRemainder : ℕ
  periodDenominator : ℕ
  fraction : ℕ
  currentCycles : ℕ
deriving DecidableEq

def clockNext (clock : PSXVBlankClock) : Checked PSXVBlankClock :=
  if clock.periodDenominator = 0 then pure clock else do
    let fraction ← unsigned 64 (clock.fraction + clock.periodRemainder)
    if clock.periodDenominator ≤ fraction then
      let rest ← unsignedSub 64 fraction clock.periodDenominator
      let cycles ← unsigned 32 (clock.periodFloor + 1)
      let kept ← unsigned 32 rest
      pure { clock with currentCycles := cycles, fraction := kept }
    else
      let kept ← unsigned 32 fraction
      pure { clock with currentCycles := clock.periodFloor, fraction := kept }

/-- `none` is the return value 0, which leaves the clock as it was. -/
def clockConfigure (clock : PSXVBlankClock) (num den : ℕ) : Checked (Option PSXVBlankClock) :=
  if den = 0 then pure none
  else if num / den = 0 ∨ 2 ^ 32 - 1 ≤ num / den then pure none
  else do
    let floor ← unsigned 32 (num / den)
    let remainder ← unsigned 32 (num % den)
    let started ← clockNext { clock with
      periodFloor := floor, periodRemainder := remainder, periodDenominator := den, fraction := 0 }
    pure (some started)

def clockRestoreFraction (clock : PSXVBlankClock) (fraction : ℕ) : Checked (Option PSXVBlankClock) :=
  if clock.periodDenominator = 0 ∨ clock.periodDenominator ≤ fraction then pure none
  else if clock.periodRemainder ≠ 0 ∧ fraction < clock.periodRemainder then do
    let cycles ← unsigned 32 (clock.periodFloor + 1)
    pure (some { clock with fraction := fraction, currentCycles := cycles })
  else pure (some { clock with fraction := fraction, currentCycles := clock.periodFloor })

def cyclesForFramesCeil (clock : PSXVBlankClock) (frames : ℕ) : Checked ℕ :=
  if clock.periodDenominator = 0 then pure 0 else do
    let whole ← unsigned 64 (frames * clock.periodFloor)
    let parts ← unsigned 64 (frames * clock.periodRemainder)
    let raised ← unsigned 64 (parts + clock.periodDenominator)
    let top ← unsignedSub 64 raised 1
    let fractional := top / clock.periodDenominator
    let room ← unsignedSub 64 (2 ^ 64 - 1) fractional
    if room < whole then pure (2 ^ 64 - 1) else unsigned 64 (whole + fractional)

/-- `mid = lo + (hi - lo + 1u) / 2u` -/
def midpoint (lo hi : ℕ) : Checked ℕ := do
  let width ← unsignedSub 64 hi lo
  let odd ← unsigned 64 (width + 1)
  unsigned 64 (lo + odd / 2)

/-- `whole <= cycles && fractional <= cycles - whole`, with the products before it. -/
def beginsWithin (clock : PSXVBlankClock) (cycles mid : ℕ) : Checked Bool := do
  let whole ← unsigned 64 (mid * clock.periodFloor)
  let groups := mid / clock.periodDenominator
  let tail := mid % clock.periodDenominator
  let grouped ← unsigned 64 (groups * clock.periodRemainder)
  let parts ← unsigned 64 (tail * clock.periodRemainder)
  let fractional ← unsigned 64 (grouped + parts / clock.periodDenominator)
  if whole ≤ cycles then do
    let rest ← unsignedSub 64 cycles whole
    pure (decide (fractional ≤ rest))
  else pure false

/-- The loop; `none` when it is still going after `fuel` rounds. -/
def searchLoop (clock : PSXVBlankClock) (cycles : ℕ) : ℕ → ℕ → ℕ → Checked (Option ℕ)
  | 0, _, _ => pure none
  | fuel + 1, lo, hi =>
    if lo < hi then do
      let mid ← midpoint lo hi
      if ← beginsWithin clock cycles mid then searchLoop clock cycles fuel mid hi
      else do
        let below ← unsignedSub 64 mid 1
        searchLoop clock cycles fuel lo below
    else pure (some lo)

def framesForCyclesFloor (fuel : ℕ) (clock : PSXVBlankClock) (cycles : ℕ) : Checked (Option ℕ) :=
  if clock.periodFloor = 0 ∨ clock.periodDenominator = 0 then pure (some 0)
  else searchLoop clock cycles fuel 0 (cycles / clock.periodFloor)

/-! ## The clock at its exact rate -/

/-- The clock in the period number `k`: `k + 1` periods of `num / den` were begun. -/
def clockAt (num den k : ℕ) : PSXVBlankClock where
  periodFloor := num / den
  periodRemainder := num % den
  periodDenominator := den
  fraction := (k + 1) * num % den
  currentCycles := (k + 1) * num / den - k * num / den

/-- The period of the configured clock, and every later one. -/
def clockAfter (clock : PSXVBlankClock) : ℕ → Checked PSXVBlankClock
  | 0 => pure clock
  | k + 1 => clockAfter clock k >>= clockNext

/-- A period the code accepts. -/
structure Rate (num den : ℕ) : Prop where
  den_lt : den < 2 ^ 32
  floor_pos : 1 ≤ num / den
  floor_le : num / den ≤ 2 ^ 32 - 2

section Exact

variable {num den : ℕ} (h : Rate num den)

include h

theorem Rate.den_pos : 0 < den := by
  rcases Nat.eq_zero_or_pos den with rfl | hpos
  · have := h.floor_pos
    simp at this
  · exact hpos

theorem Rate.remainder_lt : num % den < den := Nat.mod_lt _ h.den_pos

/-- One more period carries exactly when the remainders reach the denominator. -/
theorem Rate.next_quotient (k : ℕ) :
    (k + 1) * num / den = k * num / den + num / den + if den ≤ k * num % den + num % den then 1 else 0 := by
  rw [Nat.add_mul, Nat.one_mul, Nat.add_div h.den_pos]

theorem Rate.next_fraction (k : ℕ) :
    (k + 1) * num % den
      = if den ≤ k * num % den + num % den then k * num % den + num % den - den
        else k * num % den + num % den := by
  rw [Nat.add_mul, Nat.one_mul, Nat.add_mod]
  have hk := Nat.mod_lt (k * num) h.den_pos
  have hr := h.remainder_lt
  split_ifs with hcarry
  · rw [Nat.mod_eq_sub_mod hcarry, Nat.mod_eq_of_lt (by omega)]
  · exact Nat.mod_eq_of_lt (by omega)

/-- The step of the clock from `k` begun periods to `k + 1`, whatever its current period. -/
theorem Rate.next_eq (k cycles : ℕ) :
    clockNext ⟨num / den, num % den, den, k * num % den, cycles⟩ = pure (clockAt num den k) := by
  have hpos := h.den_pos
  have hk := Nat.mod_lt (k * num) hpos
  have hr := h.remainder_lt
  have hden := h.den_lt
  have hfloor := h.floor_le
  have hsum : k * num % den + num % den < 2 ^ 64 := by omega
  rw [clockNext, clockAt, h.next_quotient, h.next_fraction]
  dsimp only
  rw [if_neg hpos.ne', unsigned_of_lt hsum, Checked.pure_bind]
  split_ifs with hcarry
  · rw [unsignedSub_of_le hcarry hsum, Checked.pure_bind, unsigned_of_lt (by omega), Checked.pure_bind,
      unsigned_of_lt (by omega), Checked.pure_bind]
    rw [Nat.add_assoc, Nat.add_sub_cancel_left]
  · rw [unsigned_of_lt (by omega), Checked.pure_bind]
    rw [Nat.add_assoc, Nat.add_sub_cancel_left, Nat.add_zero]

theorem Rate.configure_eq (clock : PSXVBlankClock) :
    clockConfigure clock num den = pure (some (clockAt num den 0)) := by
  have hfloor := h.floor_le
  have hr := h.remainder_lt
  have hden := h.den_lt
  have hne : ¬(num / den = 0 ∨ 2 ^ 32 - 1 ≤ num / den) := by
    have := h.floor_pos
    omega
  have hnext := h.next_eq 0 clock.currentCycles
  rw [Nat.zero_mul, Nat.zero_mod] at hnext
  rw [clockConfigure, if_neg h.den_pos.ne', if_neg hne, unsigned_of_lt (by omega), Checked.pure_bind,
    unsigned_of_lt (by omega), Checked.pure_bind, hnext, Checked.pure_bind]

theorem Rate.after_eq (k : ℕ) : clockAfter (clockAt num den 0) k = pure (clockAt num den k) := by
  induction k with
  | zero => rfl
  | succ k ih =>
    rw [clockAfter, ih, Checked.pure_bind]
    exact h.next_eq (k + 1) _

omit h in
/-- The periods add up to the whole cycles of the rational time. -/
theorem sum_periods (num den N : ℕ) :
    ∑ k ∈ Finset.range N, (clockAt num den k).currentCycles = N * num / den := by
  induction N with
  | zero => simp
  | succ N ih =>
    rw [Finset.sum_range_succ, ih]
    have hmono : N * num / den ≤ (N + 1) * num / den :=
      Nat.div_le_div_right (Nat.mul_le_mul_right num (Nat.le_succ N))
    exact Nat.add_sub_of_le hmono

theorem Rate.period (k : ℕ) :
    (clockAt num den k).currentCycles
      = num / den + if den ≤ k * num % den + num % den then 1 else 0 := by
  rw [clockAt]
  dsimp only
  rw [h.next_quotient, Nat.add_assoc, Nat.add_sub_cancel_left]

theorem Rate.restore_eq (M N : ℕ) :
    clockRestoreFraction (clockAt num den M) (clockAt num den N).fraction
      = pure (some (clockAt num den N)) := by
  have hpos := h.den_pos
  have hN := Nat.mod_lt (N * num) hpos
  have hr := h.remainder_lt
  have hfloor := h.floor_le
  have hf : (clockAt num den N).fraction < den := Nat.mod_lt _ hpos
  -- the last addition wrapped exactly when it left less than it added
  have hcarry : (clockAt num den N).fraction < num % den ↔ den ≤ N * num % den + num % den := by
    rw [clockAt]
    dsimp only
    rw [h.next_fraction]
    split_ifs with hle <;> omega
  have hp := h.period N
  have hkept : ¬((clockAt num den M).periodDenominator = 0 ∨
      (clockAt num den M).periodDenominator ≤ (clockAt num den N).fraction) := by
    rw [show (clockAt num den M).periodDenominator = den from rfl]
    omega
  rw [clockRestoreFraction, if_neg hkept]
  by_cases hwrap : den ≤ N * num % den + num % den
  · rw [if_pos hwrap] at hp
    have hfits : (clockAt num den M).periodFloor + 1 < 2 ^ 32 := by
      rw [show (clockAt num den M).periodFloor = num / den from rfl]
      omega
    rw [if_pos ⟨Nat.ne_of_gt (Nat.zero_lt_of_lt (hcarry.2 hwrap)), hcarry.2 hwrap⟩,
      unsigned_of_lt hfits, Checked.pure_bind]
    exact congrArg (fun cycles => (pure (some { clockAt num den N with currentCycles := cycles }) : Checked _)) hp.symm
  · rw [if_neg hwrap] at hp
    rw [if_neg fun hc => hwrap (hcarry.1 hc.2)]
    exact congrArg (fun cycles => (pure (some { clockAt num den N with currentCycles := cycles }) : Checked _)) hp.symm

/-! ## Frames to cycles -/

omit h in
theorem mul_split (n num den : ℕ) : n * num = n * (num % den) + den * (n * (num / den)) := by
  conv_lhs => rw [← Nat.mod_add_div num den]
  ring

/-- Rounding up the rational part alone. -/
theorem Rate.ceil_parts (n : ℕ) :
    n * num ⌈/⌉ den = n * (num / den) + (n * (num % den) + den - 1) / den := by
  have hpos := h.den_pos
  rw [Nat.ceilDiv_eq_add_pred_div, mul_split n num den, show n * (num % den) + den * (n * (num / den)) + den - 1
    = n * (num % den) + den - 1 + den * (n * (num / den)) by omega, Nat.add_mul_div_left _ _ hpos]
  exact Nat.add_comm _ _

theorem Rate.ceil_eq (N : ℕ) {n : ℕ} (hn : n < 2 ^ 32) :
    cyclesForFramesCeil (clockAt num den N) n = pure (min (n * num ⌈/⌉ den) (2 ^ 64 - 1)) := by
  have hpos := h.den_pos
  have hden := h.den_lt
  have hwhole : n * (num / den) ≤ (2 ^ 32 - 1) * (2 ^ 32 - 2) := Nat.mul_le_mul (by omega) h.floor_le
  have hparts : n * (num % den) ≤ (2 ^ 32 - 1) * (2 ^ 32 - 2) :=
    Nat.mul_le_mul (by omega) (by have := h.remainder_lt; omega)
  have hfrac : (n * (num % den) + den - 1) / den ≤ n * (num % den) + den - 1 := Nat.div_le_self _ _
  have hceil := h.ceil_parts n
  rw [cyclesForFramesCeil, clockAt]
  dsimp only
  rw [if_neg hpos.ne', unsigned_of_lt (by omega), Checked.pure_bind, unsigned_of_lt (by omega),
    Checked.pure_bind, unsigned_of_lt (by omega), Checked.pure_bind,
    unsignedSub_of_le (by omega) (by omega), Checked.pure_bind, unsignedSub_of_le (by omega) (by omega),
    Checked.pure_bind]
  split_ifs with hroom
  · rw [Nat.min_eq_right (by omega)]
  · rw [unsigned_of_lt (by omega), Nat.min_eq_left (by omega), hceil]

/-! ## Cycles to frames -/

/-- The start of frame `n`, from whole periods and whole groups of `den` frames. -/
theorem Rate.start_split (n : ℕ) :
    n * num / den = n * (num / den) + (n / den * (num % den) + n % den * (num % den) / den) := by
  have hsplit : n * num = n % den * (num % den) + den * (n * (num / den) + n / den * (num % den)) := by
    calc n * num = n * (num % den) + den * (n * (num / den)) := mul_split n num den
      _ = (n % den + den * (n / den)) * (num % den) + den * (n * (num / den)) := by rw [Nat.mod_add_div n den]
      _ = _ := by ring
  rw [hsplit, Nat.add_mul_div_left _ _ h.den_pos]
  omega

omit h in
theorem starts_mono {m n : ℕ} (hmn : m ≤ n) : m * num / den ≤ n * num / den :=
  Nat.div_le_div_right (Nat.mul_le_mul_right num hmn)

/-- Every frame takes at least the whole cycles of a period. -/
theorem Rate.start_ge (n : ℕ) : n * (num / den) ≤ n * num / den := by
  rw [h.start_split n]
  exact Nat.le_add_right _ _

theorem Rate.within_eq (N : ℕ) {cycles mid : ℕ} (hcycles : cycles < 2 ^ 64)
    (hmid : mid ≤ cycles / (num / den)) :
    beginsWithin (clockAt num den N) cycles mid = pure (decide (mid * num / den ≤ cycles)) := by
  have hr := h.remainder_lt
  have hden := h.den_lt
  have hwhole : mid * (num / den) ≤ cycles := (Nat.le_div_iff_mul_le h.floor_pos).1 hmid
  have hlt : mid < 2 ^ 64 := hmid.trans_lt ((Nat.div_le_self _ _).trans_lt hcycles)
  have hgrouped : mid / den * (num % den) ≤ mid :=
    (Nat.mul_le_mul_left _ hr.le).trans (Nat.div_mul_le_self mid den)
  have hparts : mid % den * (num % den) ≤ (2 ^ 32 - 1) * (2 ^ 32 - 1) :=
    Nat.mul_le_mul (by have := Nat.mod_lt mid h.den_pos; omega) (by omega)
  -- the two fractional terms together are the fractional part of the start, at most a cycle a frame
  have hfrac : mid / den * (num % den) + mid % den * (num % den) / den ≤ mid := by
    have htail : mid % den * (num % den) / den ≤ mid % den :=
      (Nat.div_le_div_right (Nat.mul_le_mul_left _ hr.le)).trans_eq (Nat.mul_div_cancel _ h.den_pos)
    calc mid / den * (num % den) + mid % den * (num % den) / den
        ≤ mid / den * den + mid % den := Nat.add_le_add (Nat.mul_le_mul_left _ hr.le) htail
      _ = mid := Nat.div_add_mod' mid den
  rw [beginsWithin, clockAt]
  dsimp only
  rw [unsigned_of_lt (by omega), Checked.pure_bind, unsigned_of_lt (by omega), Checked.pure_bind,
    unsigned_of_lt (by omega), Checked.pure_bind, unsigned_of_lt (by omega), Checked.pure_bind,
    if_pos hwhole, unsignedSub_of_le hwhole hcycles, Checked.pure_bind, h.start_split mid]
  exact congrArg pure (decide_eq_decide.2 ⟨fun hle => by omega, fun hle => by omega⟩)

/-- With room for the width of its interval the loop is the search itself. -/
theorem Rate.loop_eq (N : ℕ) {cycles : ℕ} (hcycles : cycles < 2 ^ 64) {fuel lo hi : ℕ}
    (hhi : hi ≤ cycles / (num / den)) (hwidth : hi - lo + 1 < 2 ^ 64) :
    searchLoop (clockAt num den N) cycles fuel lo hi
      = pure (search (fun n => decide (n * num / den ≤ cycles)) fuel lo hi) := by
  induction fuel generalizing lo hi with
  | zero => rfl
  | succ fuel ih =>
    have hlt : hi < 2 ^ 64 := hhi.trans_lt ((Nat.div_le_self _ _).trans_lt hcycles)
    rw [searchLoop, search]
    split_ifs with hgo hmid
    · rw [midpoint, unsignedSub_of_le hgo.le hlt, Checked.pure_bind, unsigned_of_lt hwidth, Checked.pure_bind,
        unsigned_of_lt (by omega), Checked.pure_bind, h.within_eq N hcycles (by omega), Checked.pure_bind,
        if_pos hmid]
      exact ih hhi (by omega)
    · rw [midpoint, unsignedSub_of_le hgo.le hlt, Checked.pure_bind, unsigned_of_lt hwidth, Checked.pure_bind,
        unsigned_of_lt (by omega), Checked.pure_bind, h.within_eq N hcycles (by omega), Checked.pure_bind,
        if_neg hmid, unsignedSub_of_le (by omega) (by omega), Checked.pure_bind]
      exact ih (by omega) (by omega)
    · rfl

/-- The result after enough rounds: the last frame that begins within the cycles. -/
def Finds (clock : PSXVBlankClock) (num den cycles : ℕ) : Prop :=
  ∃ n rounds, IsGreatest {m | m * num / den ≤ cycles} n ∧
    ∀ fuel, rounds ≤ fuel → framesForCyclesFloor fuel clock cycles = pure (some n)

theorem Rate.finds (N : ℕ) {cycles : ℕ} (hcycles : cycles < 2 ^ 64)
    (hroom : cycles / (num / den) + 1 < 2 ^ 64) : Finds (clockAt num den N) num den cycles := by
  have hne : ¬((clockAt num den N).periodFloor = 0 ∨ (clockAt num den N).periodDenominator = 0) := by
    rw [show (clockAt num den N).periodFloor = num / den from rfl,
      show (clockAt num den N).periodDenominator = den from rfl]
    have := h.floor_pos
    have := h.den_pos
    omega
  have hgreatest : ∀ {fuel n}, search (fun n => decide (n * num / den ≤ cycles)) fuel 0
      (cycles / (num / den)) = some n → IsGreatest {m | m * num / den ≤ cycles} n := by
    intro fuel n hsearch
    have hspec := search_spec (p := fun n => decide (n * num / den ≤ cycles))
      (fun hmn hn => by
        rw [decide_eq_true_iff] at hn ⊢
        exact (starts_mono hmn).trans hn)
      hsearch (Nat.zero_le _) (by simp) fun m hm => by
        rw [decide_eq_true_iff] at hm
        exact (Nat.le_div_iff_mul_le h.floor_pos).2 ((h.start_ge m).trans hm)
    simpa using hspec
  obtain ⟨n, hn⟩ := search_enough (p := fun n => decide (n * num / den ≤ cycles))
    (Nat.lt_succ_self (cycles / (num / den) - 0))
  refine ⟨n, cycles / (num / den) + 1, hgreatest hn, fun fuel hfuel => ?_⟩
  obtain ⟨m, hm⟩ := search_enough (p := fun n => decide (n * num / den ≤ cycles))
    ((Nat.sub_le _ 0).trans_lt hfuel)
  rw [framesForCyclesFloor, if_neg hne]
  refine (h.loop_eq N hcycles le_rfl (by omega)).trans ?_
  rw [hm, (hgreatest hm).unique (hgreatest hn)]

omit h in
/-- An interval of 2^64 frames has no width: the loop looks at frame 0 for ever. -/
theorem loop_stuck (clock : PSXVBlankClock) (fuel : ℕ) :
    (searchLoop clock (2 ^ 64 - 1) fuel 0 (2 ^ 64 - 1)).val = none := by
  induction fuel with
  | zero => rfl
  | succ fuel ih =>
    have hmid : (midpoint 0 (2 ^ 64 - 1)).val = 0 := by decide
    have hbegins : (beginsWithin clock (2 ^ 64 - 1) 0).val = true := by
      simp [beginsWithin, unsigned, unsignedSub]
    rw [searchLoop, if_pos (by decide), Checked.bind_val, hmid, Checked.bind_val, hbegins]
    exact ih

theorem Rate.not_finds (N : ℕ) (hone : num / den = 1) :
    ¬ Finds (clockAt num den N) num den (2 ^ 64 - 1) := by
  rintro ⟨n, rounds, -, hreturns⟩
  have hval := congrArg Checked.val (hreturns rounds le_rfl)
  rw [framesForCyclesFloor, clockAt] at hval
  dsimp only at hval
  rw [if_neg (by have := h.den_pos; omega), hone, Nat.div_one, loop_stuck] at hval
  exact nomatch hval

end Exact

/-! ## Pacing -/

/-- What is asked of a clock that was configured for `num / den`, of its period `N` and a second
period `M` of the same configuration, of `frames` frames and of `cycles` cycles. No intermediate
result overflows. -/
structure KeepsRate (num den : ℕ) (clock : PSXVBlankClock) (N M frames cycles : ℕ) : Prop where
  runs : ∀ k ≤ N, (clockAfter clock k).fits
  sum : ∑ k ∈ Finset.range N, (clockAfter clock k).val.currentCycles = N * num / den
  period : (clockAfter clock N).val.currentCycles = num / den
    ∨ (clockAfter clock N).val.currentCycles = num / den + 1
  restored : clockRestoreFraction (clockAfter clock M).val (clockAfter clock N).val.fraction
    = pure (some (clockAfter clock N).val)
  ceil : cyclesForFramesCeil (clockAfter clock N).val frames
    = pure (min (frames * num ⌈/⌉ den) (2 ^ 64 - 1))
  finds : Finds (clockAfter clock N).val num den cycles

/-- The pacing is exact but for one search: with a period below two cycles, no frame count is found
for the largest cycle count. -/
theorem vblank_pacing_exact_iff (clock : PSXVBlankClock) (num den N M frames cycles : ℕ)
    (h : Rate num den) (hframes : frames < 2 ^ 32) (hcycles : cycles < 2 ^ 64) :
    ∃ started, clockConfigure clock num den = pure (some started) ∧
      (KeepsRate num den started N M frames cycles ↔ ¬(num / den = 1 ∧ cycles = 2 ^ 64 - 1)) := by
  refine ⟨clockAt num den 0, h.configure_eq clock, fun hkeeps => ?_, fun hroom => ?_⟩
  · rintro ⟨hone, rfl⟩
    have hfinds := hkeeps.finds
    rw [h.after_eq, Checked.pure_val] at hfinds
    exact h.not_finds N hone hfinds
  · have hwidth : cycles / (num / den) + 1 < 2 ^ 64 := by
      have hpos := h.floor_pos
      rcases hpos.eq_or_lt with hone | htwo
      · rw [← hone, Nat.div_one]
        omega
      · have hhalf : cycles / (num / den) ≤ cycles / 2 := Nat.div_le_div_left htwo (by decide)
        omega
    constructor
    · intro k _
      rw [h.after_eq, Checked.pure_fits]
    · simp only [h.after_eq, Checked.pure_val, sum_periods]
    · rw [h.after_eq, Checked.pure_val, h.period]
      split_ifs
      · exact Or.inr rfl
      · exact Or.inl rfl
    · rw [h.after_eq, h.after_eq, Checked.pure_val, Checked.pure_val, h.restore_eq]
    · rw [h.after_eq, Checked.pure_val, h.ceil_eq N hframes]
    · rw [h.after_eq, Checked.pure_val]
      exact h.finds N hcycles hwidth

theorem vblank_pacing_ntsc : ∃ started, clockConfigure ⟨0, 0, 0, 0, 0⟩ 33868800 60 = pure (some started) ∧
    (KeepsRate 33868800 60 started 100 7 600 1000000
      ↔ ¬(33868800 / 60 = 1 ∧ 1000000 = 2 ^ 64 - 1)) :=
  vblank_pacing_exact_iff ⟨0, 0, 0, 0, 0⟩ 33868800 60 100 7 600 1000000
    ⟨by norm_num, by norm_num, by norm_num⟩ (by norm_num) (by norm_num)

/-- One cycle a frame: the frames of 2^64 - 1 cycles are never found. -/
theorem last_cycle_never_found :
    ∃ started, clockConfigure ⟨0, 0, 0, 0, 0⟩ 1 1 = pure (some started) ∧
      (∀ fuel, (framesForCyclesFloor fuel started (2 ^ 64 - 1)).val = none) ∧
      ¬ KeepsRate 1 1 started 0 0 0 (2 ^ 64 - 1) := by
  have h : Rate 1 1 := ⟨by norm_num, by norm_num, by norm_num⟩
  refine ⟨clockAt 1 1 0, h.configure_eq _, fun fuel => ?_, fun hkeeps => ?_⟩
  · rw [framesForCyclesFloor, if_neg (by decide), show (clockAt 1 1 0).periodFloor = 1 from rfl, Nat.div_one]
    exact loop_stuck _ fuel
  · have hfinds := hkeeps.finds
    rw [h.after_eq, Checked.pure_val] at hfinds
    exact h.not_finds 0 (by norm_num) hfinds

end PsxRecomp.VBlankClock
