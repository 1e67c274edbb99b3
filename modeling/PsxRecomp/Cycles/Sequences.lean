import Mathlib
import PsxRecomp.Cycles.Credits

/-! Sequences of charges, deferral brackets, flushes and local accumulators. The clock after any
of them is the start plus the charges; only an accumulator that replaces another one forgets. -/
namespace PsxRecomp.Cycles
open Transducer
set_option autoImplicit false

variable {S R ε : Type*} (D : DeviceSet S R ε) (M : Modes)

/-! ## What an operation moves -/

section Runs
variable (hreplay : M.lsReplayActive = false)
include hreplay

/-- `psx_advance_cycles` publishes what it is given and the whole pending batch. -/
theorem advance_accounts (cycles : ℕ) (c : Clock S R) :
    SameAccounts (c.clearBatch.addCycles (c.batch + cycles)) (advanceCycles D M cycles c).1 := by
  have h := (GuestTime.advance_moved D M hreplay cycles (GuestTime.awake M c)).accounts
  rwa [(GuestTime.advanceCycles_lifts D M cycles (GuestTime.awake M c) ⟨rfl, rfl⟩).1] at h

/-- One operation moves the clock by its charge, less what it drops. -/
theorem op_value (hrecip : M.gcsRecip ≤ 65536) (op : ClockOp) (c : Clock S R) (hc : Fits c) :
    Fits (op.run D M c).1 ∧
      clockValue (op.run D M c).1 + 65536 * op.drops c =
        clockValue c + 65536 * op.deviceCycles + M.gcsRecip * op.cpuCycles := by
  obtain ⟨hfits, hval, -⟩ := GuestTime.op_moves D M hreplay hrecip (.clock op) (GuestTime.awake M c) hc
  obtain ⟨hclock, -, -⟩ := GuestTime.clockOp_lifts D M op (GuestTime.awake M c) ⟨rfl, rfl⟩
  rw [hclock] at hfits hval
  exact ⟨hfits, hval⟩

theorem batchFlush_value (hrecip : M.gcsRecip ≤ 65536) (c : Clock S R) (hc : Fits c) :
    Fits (batchFlush D M c).1 ∧ clockValue (batchFlush D M c).1 = clockValue c :=
  op_value D M hreplay hrecip .batchFlush c hc

theorem runOps_value (hrecip : M.gcsRecip ≤ 65536) (ops : List ClockOp) (c : Clock S R)
    (hc : Fits c) :
    Fits (runOps D M ops c).1 ∧
      clockValue (runOps D M ops c).1 + 65536 * dropped D M ops c =
        clockValue c + 65536 * (ops.map ClockOp.deviceCycles).sum +
          M.gcsRecip * (ops.map ClockOp.cpuCycles).sum := by
  induction ops generalizing c with
  | nil => exact ⟨hc, rfl⟩
  | cons op ops ih =>
    obtain ⟨hfits, hval⟩ := op_value D M hreplay hrecip op c hc
    obtain ⟨hfits', hval'⟩ := ih _ hfits
    refine ⟨hfits', ?_⟩
    simp only [runOps, seq_fst, dropped, List.map_cons, List.sum_cons, Nat.mul_add]
    omega

end Runs

/-! ## Accumulators that do not overlap drop nothing -/

/-- A step that leaves a null accumulator pointer null. -/
def KeepsNull (f : Step (Clock S R) (ℕ × ε)) : Prop :=
  ∀ c, c.localAcc = none → (f c).1.localAcc = none

section Null
variable (hreplay : M.lsReplayActive = false)
include hreplay

theorem advanceCycles_null (n : ℕ) : KeepsNull (advanceCycles D M n) := fun c hc =>
  (advance_accounts D M hreplay n c).2.2.1.trans hc

theorem cpuCharge_null (n : ℕ) : KeepsNull (cpuCharge D M n) := by
  intro c hc
  simp only [cpuCharge]
  split_ifs
  · exact hc
  · exact advanceCycles_null D M hreplay _ _ hc
  · exact advanceCycles_null D M hreplay _ _ hc

theorem chargeBatch_null (n : ℕ) : KeepsNull (chargeBatch D M n) := by
  intro c hc
  have hlimit : (limitBatch c).localAcc = none := by
    rw [limitBatch]
    split_ifs <;> exact hc
  rw [chargeBatch]
  dsimp only
  split_ifs
  · exact hlimit
  · exact advanceCycles_null D M hreplay _ _ hlimit
  · exact advanceCycles_null D M hreplay _ _ hc

theorem chargeUnscaled_null (n : ℕ) : KeepsNull (chargeUnscaled D M n) := by
  intro c hc
  simp only [chargeUnscaled, hc]
  split_ifs
  · exact advanceCycles_null D M hreplay _ _ hc
  · exact hc
  · rfl
  · exact chargeBatch_null D M hreplay _ _ hc

theorem cycCharge_null (n : ℕ) : KeepsNull (cycCharge D M n) := by
  intro c hc
  rw [cycCharge]
  dsimp only
  split_ifs
  · exact hc
  · exact cpuCharge_null D M hreplay _ _ hc
  · exact hc
  · exact chargeBatch_null D M hreplay _ _ hc
  · exact chargeUnscaled_null D M hreplay _ _ hc
  · exact chargeUnscaled_null D M hreplay _ _ hc

theorem batchFlush_null : KeepsNull (batchFlush D M) := by
  intro c hc
  have hpublish : localPublish D M c = (c, []) := by rw [localPublish, hc]
  rw [batchFlush, seq_quiet _ _ hpublish]
  split_ifs
  · exact hc
  · exact advanceCycles_null D M hreplay _ _ hc

theorem bbDeferEnd_null : KeepsNull (bbDeferEnd D M) := by
  intro c hc
  have hkeep : (if c.bbDefer > 0 then { c with bbDefer := c.bbDefer - 1 } else c).localAcc = none := by
    split_ifs <;> exact hc
  simp only [bbDeferEnd]
  generalize (if c.bbDefer > 0 then { c with bbDefer := c.bbDefer - 1 } else c) = c' at hkeep ⊢
  split_ifs
  · exact batchFlush_null D M hreplay c' hkeep
  · exact hkeep

theorem op_null (op : ClockOp) (hop : op ≠ .localBegin) : KeepsNull (op.run (S := S) D M) := by
  cases op with
  | cycCharge n => exact cycCharge_null D M hreplay _
  | cpuCharge n => exact cpuCharge_null D M hreplay _
  | advanceCycles n => exact advanceCycles_null D M hreplay _
  | batchFlush => exact batchFlush_null D M hreplay
  | bbDeferBegin => exact fun c hc => hc
  | bbDeferEnd => exact bbDeferEnd_null D M hreplay
  | localBegin => exact absurd rfl hop
  | localEnd => exact fun c _ => rfl

end Null

/-- Brackets that match, at nesting depth `d`. -/
def nested : ℕ → List ClockOp → Bool
  | d, [] => d = 0
  | d, .localBegin :: ops => nested (d + 1) ops
  | 0, .localEnd :: _ => false
  | d + 1, .localEnd :: ops => nested d ops
  | d, _ :: ops => nested d ops

/-- No accumulator is installed while another one is; `inside` tells whether one is. -/
def flat : Bool → List ClockOp → Bool
  | _, [] => true
  | inside, .localBegin :: ops => !inside && flat true ops
  | _, .localEnd :: ops => flat false ops
  | inside, _ :: ops => flat inside ops

theorem flat_other (inside : Bool) (op : ClockOp) (ops : List ClockOp) (hb : op ≠ .localBegin)
    (he : op ≠ .localEnd) : flat inside (op :: ops) = flat inside ops := by
  cases op with
  | localBegin => exact absurd rfl hb
  | localEnd => exact absurd rfl he
  | _ => rfl

theorem drops_other (op : ClockOp) (c : Clock S R) (hb : op ≠ .localBegin) : op.drops c = 0 := by
  cases op with
  | localBegin => exact absurd rfl hb
  | _ => rfl

section Flat
variable (hreplay : M.lsReplayActive = false)
include hreplay

theorem dropped_flat (ops : List ClockOp) (inside : Bool) (c : Clock S R)
    (hflat : flat inside ops = true) (hnull : inside = false → c.localAcc = none) :
    dropped D M ops c = 0 := by
  induction ops generalizing inside c with
  | nil => rfl
  | cons op ops ih =>
    by_cases hb : op = .localBegin
    · subst hb
      simp only [flat, Bool.and_eq_true, Bool.not_eq_true'] at hflat
      have hpending : c.localPending = 0 := by simp [Clock.localPending, hnull hflat.1]
      rw [dropped, ih true _ hflat.2 (fun h => absurd h (by decide)), ClockOp.drops, hpending]
    · rw [dropped, drops_other op c hb, Nat.zero_add]
      by_cases he : op = .localEnd
      · subst he
        exact ih false _ hflat (fun _ => rfl)
      · rw [flat_other inside op ops hb he] at hflat
        exact ih inside _ hflat fun h => op_null D M hreplay op hb c (hnull h)

/-- Conservation. For every sequence of operations at a fixed scale, the clock with its pending
cycles is the start plus the device charges plus the scaled processor charges, and the carried
fraction is the remainder; the only loss is what a replaced accumulator still held, and sequences
whose accumulators do not overlap lose nothing. -/
theorem clock_conserved (scale : ℕ) (hscale : M.gcsRecip = gcsRecipFor scale) (c : Clock S R)
    (hc : Fits c) (ops : List ClockOp) :
    getCycleCount (runOps D M ops c).1 + dropped D M ops c =
        getCycleCount c + (ops.map ClockOp.deviceCycles).sum +
          (c.gcsFrac + M.gcsRecip * (ops.map ClockOp.cpuCycles).sum) / 65536 ∧
      (runOps D M ops c).1.gcsFrac =
        (c.gcsFrac + M.gcsRecip * (ops.map ClockOp.cpuCycles).sum) % 65536 ∧
      (c.localAcc = none → flat false ops = true → dropped D M ops c = 0) := by
  have hrecip : M.gcsRecip ≤ 65536 := hscale ▸ gcsRecipFor_le scale
  obtain ⟨hfits, hval⟩ := runOps_value D M hreplay hrecip ops c hc
  have hfrac := hfits.frac
  simp only [clockValue] at hval
  refine ⟨by omega, by omega, fun hnull hflat => ?_⟩
  exact dropped_flat D M hreplay ops false c hflat fun _ => hnull

end Flat

/-! ## An accumulator installed over another one -/

/-- Devices that never do anything. -/
def idleDevices : DeviceSet Unit Unit Unit where
  sioAdvance := fun _ _ => skip
  cdromAdvance := fun _ _ => skip
  dmaAdvance := fun _ _ => skip
  timersAdvance := fun _ _ => skip
  spuSampleEventService := fun _ _ => skip
  vblankEdge := fun _ => skip
  sioGetSeq := fun _ => 0
  sioCardProtocolActive := fun _ => false
  timersCyclesToIrq := fun _ _ => uint32Max
  cdromCyclesToIrq := fun _ _ => uint32Max
  dmaCyclesToInternalEvent := fun _ _ => uint32Max
  sioCyclesToIrq := fun _ _ => uint32Max
  spuSampleEventCyclesToNext := fun _ _ _ => uint32Max
  pal := false

/-- The production path at scale 1. -/
def productionModes : Modes where
  gcsRecip := gcsRecipFor 1
  gcsBatch := false
  eventStepConservative := false
  lsReplayActive := false
  cycleReplayActive := false
  inDeviceService := false
  samplePeriod := 0
  sampleHook := false

def coldClock : Clock Unit Unit where
  cycleCount := 0
  batch := 0
  batchLimit := 0
  bbDefer := 0
  localAcc := none
  gcsFrac := 0
  nextServiceCycle := 564480
  devicesSyncedCycle := 0
  nextCycleSample := 0
  devices := ⟨(), (), 0, 0, 0, false⟩

/-- Two properly nested accumulators: the five cycles charged into the outer one are lost. -/
def overlappingAccumulators : List ClockOp :=
  [.localBegin, .cycCharge 5, .localBegin, .cycCharge 2, .localEnd, .localEnd]

theorem overlapping_accumulators_lose :
    nested 0 overlappingAccumulators = true ∧
      getCycleCount (runOps idleDevices productionModes overlappingAccumulators coldClock).1 ≠
        getCycleCount coldClock + (overlappingAccumulators.map ClockOp.deviceCycles).sum +
          (coldClock.gcsFrac +
            productionModes.gcsRecip * (overlappingAccumulators.map ClockOp.cpuCycles).sum) / 65536 := by
  decide

/-- Scale 3 with batching. -/
def scaledModes : Modes := { productionModes with gcsRecip := gcsRecipFor 3, gcsBatch := true }

/-- Charges that are batched, deferred and collected in one accumulator at a time. -/
def mixedCharges : List ClockOp :=
  [.bbDeferBegin, .cycCharge 100, .localBegin, .cpuCharge 7, .localEnd, .advanceCycles 20,
    .cycCharge 1, .bbDeferEnd]

theorem clock_conserved_mixed :
    getCycleCount (runOps idleDevices scaledModes mixedCharges coldClock).1 =
        20 + (21845 * 108) / 65536 ∧
      (runOps idleDevices scaledModes mixedCharges coldClock).1.gcsFrac = (21845 * 108) % 65536 := by
  have hfits : Fits coldClock := ⟨by decide, by decide, by decide⟩
  have hrecip : scaledModes.gcsRecip = 21845 := by decide
  have hcpu : (mixedCharges.map ClockOp.cpuCycles).sum = 108 := by decide
  have hdev : (mixedCharges.map ClockOp.deviceCycles).sum = 20 := by decide
  have hstart : getCycleCount coldClock = 0 := rfl
  have hzero : coldClock.gcsFrac = 0 := rfl
  obtain ⟨hcount, hfrac, hdrop⟩ :=
    clock_conserved idleDevices scaledModes rfl 3 rfl coldClock hfits mixedCharges
  rw [hdrop rfl rfl, hrecip, hcpu, hdev, hstart, hzero] at hcount
  rw [hrecip, hcpu, hzero] at hfrac
  exact ⟨by omega, by omega⟩

end PsxRecomp.Cycles
