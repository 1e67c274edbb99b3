import Mathlib
import PsxRecomp.Cycles.Devices

/-! The guest clock: charges are scaled, batched, deferred or collected in a local accumulator
before they reach `psx_cycle_count`, and the devices catch up when a deadline is reached. -/
namespace PsxRecomp.Cycles
open Transducer
set_option autoImplicit false

/-! ## State -/

/-- The globals of the clock. `localAcc` is the value behind `g_psx_cyc_local_acc`, `none` when
that pointer is null: an accumulator is read through the pointer only, and is zeroed whenever it
is installed. -/
structure Clock (S R : Type*) where
  cycleCount : ℕ
  batch : ℕ
  batchLimit : ℕ
  bbDefer : ℤ
  localAcc : Option ℕ
  gcsFrac : ℕ
  nextServiceCycle : ℕ
  devicesSyncedCycle : ℕ
  nextCycleSample : ℕ
  devices : DeviceState S R

/-- What no charge changes: the scale and the flags that choose a path. -/
structure Modes where
  gcsRecip : ℕ
  gcsBatch : Bool
  eventStepConservative : Bool
  lsReplayActive : Bool
  cycleReplayActive : Bool
  inDeviceService : Bool
  samplePeriod : ℕ
  sampleHook : Bool

def uint32Max : ℕ := 0xFFFFFFFF
def batchSoft : ℕ := 64
def deadlineHardCap : ℕ := 16384

/-- `psx_gcs_recip_for` -/
def gcsRecipFor (scale : ℕ) : ℕ :=
  if scale ≤ 1 then 65536
  else
    let scale := if scale > 64 then 64 else scale
    (65536 + scale / 2) / scale

variable {S R ε : Type*} (D : DeviceSet S R ε) (M : Modes)

def Modes.gcsActive : Bool := M.gcsRecip ≠ 65536

def Clock.localPending (c : Clock S R) : ℕ := c.localAcc.getD 0

def getCycleCount (c : Clock S R) : ℕ := c.cycleCount + c.batch + c.localPending

/-- What `psx_get_cycle_count()` adds to `psx_cycle_count` while the devices run. -/
def Clock.pending (c : Clock S R) : ℕ := c.batch + c.localPending

/-! ## Device servicing -/

/-- Let the devices move together with `psx_cycle_count`. -/
def withDevices (f : ℕ → Step (Timed S R) (ℕ × ε)) : Step (Clock S R) (ℕ × ε) := fun c =>
  let r := f c.pending (c.cycleCount, c.devices)
  ({ c with cycleCount := r.1.1, devices := r.1.2 }, r.2)

/-- The length of one chunk of the catch-up loop. -/
def chunkLength (pend target : ℕ) (s : Timed S R) : ℕ :=
  let remaining := (target - s.1) % 2 ^ 32
  let toEv := devicesCyclesToNextInternalEvent D pend s
  let step := if toEv > 0 ∧ toEv < remaining then toEv else remaining
  if step = 0 then 1 else step

/-- One chunk: at an announced boundary the quiet prefix first, then the boundary cycle. -/
def advanceChunk (pend target : ℕ) : Step (Timed S R) (ℕ × ε) := fun s =>
  let step := chunkLength D pend target s
  if step > 1 ∧ devicesCyclesToNextInternalEvent D pend s = step then
    seq (advanceDevices D pend (step - 1)) (advanceDevices D pend 1) s
  else advanceDevices D pend step s

theorem chunkLength_pos (pend target : ℕ) (s : Timed S R) : 0 < chunkLength D pend target s := by
  rw [chunkLength]
  split_ifs <;> omega

theorem chunkLength_le (pend target : ℕ) (s : Timed S R) (h : s.1 < target) :
    s.1 + chunkLength D pend target s ≤ target := by
  have hmod : (target - s.1) % 2 ^ 32 ≤ target - s.1 := Nat.mod_le _ _
  rw [chunkLength]
  split_ifs <;> omega

theorem advanceChunk_time (pend target : ℕ) (s : Timed S R) :
    (advanceChunk D pend target s).1.1 = s.1 + chunkLength D pend target s := by
  have hpos := chunkLength_pos D pend target s
  rw [advanceChunk]
  split_ifs
  · rw [seq_fst, advanceDevices_time, advanceDevices_time]
    omega
  · rfl

/-- The loop of `psx_devices_service_to_now`. -/
def catchUp (pend target : ℕ) (s : Timed S R) : Timed S R × List (ℕ × ε) :=
  if _h : s.1 < target then
    let chunk := seq (advanceChunk D pend target) (serviceScheduledEvents D pend) s
    let rest := catchUp pend target chunk.1
    (rest.1, chunk.2 ++ rest.2)
  else (s, [])
termination_by target - s.1
decreasing_by
  have hpos := chunkLength_pos D pend target s
  have htime := advanceChunk_time D pend target s
  simp only [seq_fst, serviceScheduledEvents_time]
  omega

/-- `psx_cycle_sample_check`; the hook itself only observes. -/
def cycleSampleCheck (target : ℕ) (c : Clock S R) : Clock S R :=
  if M.samplePeriod = 0 ∨ M.sampleHook = false then c
  else if c.nextCycleSample = 0 ∨ c.nextCycleSample > target + M.samplePeriod then
    { c with nextCycleSample := target + M.samplePeriod }
  else if target < c.nextCycleSample then c
  else
    let n := (target - c.nextCycleSample) / M.samplePeriod + 1
    { c with nextCycleSample := c.nextCycleSample + n * M.samplePeriod }

def devicesRecomputeDeadline (c : Clock S R) : Clock S R :=
  let next := devicesCyclesToNextInternalEvent D c.pending (c.cycleCount, c.devices)
  let next := if next > deadlineHardCap then deadlineHardCap else next
  let next :=
    if M.samplePeriod ≠ 0 ∧ c.nextCycleSample > c.cycleCount then
      if c.nextCycleSample - c.cycleCount < next then c.nextCycleSample - c.cycleCount else next
    else next
  { c with nextServiceCycle := c.cycleCount + next }

/-- The gap between the devices and the clock, replayed from `s_devices_synced_cycle`. -/
def replayGap : Step (Clock S R) (ℕ × ε) := fun c =>
  if c.devicesSyncedCycle < c.cycleCount then
    let target := c.cycleCount
    let r := withDevices (fun pend => seq (serviceScheduledEvents D pend) (catchUp D pend target))
      { c with cycleCount := c.devicesSyncedCycle }
    ({ r.1 with devicesSyncedCycle := target }, r.2)
  else (c, [])

def devicesServiceToNow : Step (Clock S R) (ℕ × ε) := fun c =>
  if M.inDeviceService then (c, [])
  else
    let target := c.cycleCount
    let r := replayGap D c
    (devicesRecomputeDeadline D M (cycleSampleCheck M target r.1), r.2)

/-- The test that ends a charge: service the devices when the deadline is due or unknown. -/
def serviceIfDue : Step (Clock S R) (ℕ × ε) := fun c =>
  if c.nextServiceCycle = 0 ∨ c.cycleCount ≥ c.nextServiceCycle then devicesServiceToNow D M c
  else (c, [])

/-! ## Publishing cycles -/

def exactStepLength (cycles : ℕ) (s : Timed S R) : ℕ :=
  let step :=
    if M.eventStepConservative ∧ cycles > 1 then 1
    else
      let toVblank := interruptsCyclesToVblank D s.2
      if toVblank > 0 ∧ toVblank < cycles then toVblank else cycles
  if step = 0 then cycles else step

theorem exactStepLength_pos (cycles : ℕ) (s : Timed S R) (h : 0 < cycles) :
    0 < exactStepLength D M cycles s := by
  simp only [exactStepLength]
  split_ifs <;> omega

theorem exactStepLength_le (cycles : ℕ) (s : Timed S R) :
    exactStepLength D M cycles s ≤ cycles := by
  simp only [exactStepLength]
  split_ifs <;> omega

/-- The loop of `psx_advance_cycles_exact`. -/
def exactLoop (pend cycles : ℕ) (s : Timed S R) : Timed S R × List (ℕ × ε) :=
  if _h : 0 < cycles then
    let step := exactStepLength D M cycles s
    let moved := seq (advanceDevices D pend step) (serviceScheduledEvents D pend) s
    let rest := exactLoop pend (cycles - step) moved.1
    (rest.1, moved.2 ++ rest.2)
  else (s, [])
termination_by cycles
decreasing_by
  have := exactStepLength_pos D M cycles s _h
  omega

def advanceCyclesExact (cycles : ℕ) : Step (Clock S R) (ℕ × ε) := fun c =>
  let r := withDevices (fun pend => seq (serviceScheduledEvents D pend) (exactLoop D M pend cycles)) c
  ({ r.1 with devicesSyncedCycle := r.1.cycleCount, nextServiceCycle := 0 }, r.2)

def Clock.addCycles (c : Clock S R) (cycles : ℕ) : Clock S R :=
  { c with cycleCount := c.cycleCount + cycles }

def advanceCyclesSlow (cycles : ℕ) : Step (Clock S R) (ℕ × ε) := fun c =>
  if M.lsReplayActive then
    if M.cycleReplayActive then (c.addCycles cycles, []) else (c, [])
  else if cycles = 0 then (c, [])
  else if M.eventStepConservative then advanceCyclesExact D M cycles c
  else if M.inDeviceService then (c.addCycles cycles, [])
  else serviceIfDue D M (c.addCycles cycles)

/-- The part of `psx_advance_cycles` behind the pending batch. -/
def advancePublished (cycles : ℕ) : Step (Clock S R) (ℕ × ε) := fun c =>
  if cycles = 0 then (c, [])
  else if M.lsReplayActive ∨ M.eventStepConservative then advanceCyclesSlow D M cycles c
  else if M.inDeviceService then (c.addCycles cycles, [])
  else serviceIfDue D M (c.addCycles cycles)

def Clock.clearBatch (c : Clock S R) : Clock S R := { c with batch := 0, batchLimit := 0 }

def advanceCycles (cycles : ℕ) : Step (Clock S R) (ℕ × ε) := fun c =>
  if c.batch ≠ 0 then
    if cycles ≤ uint32Max - c.batch then advancePublished D M (cycles + c.batch) c.clearBatch
    else
      -- the sum would not fit: publish the batch first, then go on with `cycles`
      seq (fun c => if M.inDeviceService then (c, []) else serviceIfDue D M c)
        (advancePublished D M cycles) (c.clearBatch.addCycles c.batch)
  else advancePublished D M cycles c

/-- `psx_gcs_scale` -/
def gcsScale (cycles : ℕ) (c : Clock S R) : ℕ × Clock S R :=
  let t := cycles * M.gcsRecip + c.gcsFrac
  ((t / 65536) % 2 ^ 32, { c with gcsFrac := t % 65536 })

def cpuCharge (cycles : ℕ) : Step (Clock S R) (ℕ × ε) := fun c =>
  if M.gcsActive then
    let scaled := gcsScale M cycles c
    if scaled.1 = 0 then (scaled.2, []) else advanceCycles D M scaled.1 scaled.2
  else advanceCycles D M cycles c

def localPublish : Step (Clock S R) (ℕ × ε) := fun c =>
  match c.localAcc with
  | none => (c, [])
  | some v =>
    if v = 0 then (c, [])
    else
      -- the pointer is null while the amount is published
      let r := advanceCycles D M v { c with localAcc := none }
      ({ r.1 with localAcc := some 0 }, r.2)

def batchFlush : Step (Clock S R) (ℕ × ε) :=
  seq (localPublish D M) fun c =>
    if c.batch = 0 then (c, []) else advanceCycles D M c.batch c.clearBatch

/-! ## Charging -/

/-- The publication limit of a new batch: the device deadline or the soft cap. -/
def freshBatchLimit (c : Clock S R) : ℕ :=
  let room := if c.nextServiceCycle > c.cycleCount then c.nextServiceCycle - c.cycleCount else 0
  if room = 0 then 1 else if room < batchSoft then room else batchSoft

/-- `uint32_t sum = prior + cycles;` with the test that it did not wrap. -/
def batchSum (c : Clock S R) (cycles : ℕ) : ℕ := (c.batch + cycles) % 2 ^ 32

def limitBatch (c : Clock S R) : Clock S R :=
  if c.batch = 0 then { c with batchLimit := freshBatchLimit c } else c

/-- Add to the batch while it stays under its limit, else publish all of it. -/
def chargeBatch (cycles : ℕ) : Step (Clock S R) (ℕ × ε) := fun c =>
  if batchSum c cycles ≥ c.batch then
    let limited := limitBatch c
    if batchSum c cycles < limited.batchLimit then
      ({ limited with batch := batchSum c cycles }, [])
    else advanceCycles D M cycles limited
  else advanceCycles D M cycles c

/-- A charge into an installed accumulator that holds `prior`. -/
def chargeLocal (cycles prior : ℕ) : Step (Clock S R) (ℕ × ε) := fun c =>
  if cycles ≤ uint32Max - prior ∧ prior + cycles < 2 ^ 28 then
    ({ c with localAcc := some (prior + cycles) }, [])
  else
    let r := if prior ≠ 0 then advanceCycles D M prior { c with localAcc := none }
      else ({ c with localAcc := none }, [])
    ({ r.1 with localAcc := some cycles }, r.2)

/-- The scale-1 production path, also the fall-through of the scaled one. -/
def chargeUnscaled (cycles : ℕ) : Step (Clock S R) (ℕ × ε) := fun c =>
  if M.lsReplayActive ∨ M.eventStepConservative then advanceCycles D M cycles c
  else if M.inDeviceService then (c.addCycles cycles, [])
  else
    match c.localAcc with
    | some prior => chargeLocal D M cycles prior c
    | none =>
      if batchSum c cycles ≥ c.batch ∧ c.bbDefer > 0 then
        ({ c with batch := batchSum c cycles }, [])
      else chargeBatch D M cycles c

def cycCharge (cycles : ℕ) : Step (Clock S R) (ℕ × ε) := fun c =>
  if cycles = 0 then (c, [])
  else if M.gcsActive then
    if M.gcsBatch = false then cpuCharge D M cycles c
    else
      let scaled := gcsScale M cycles c
      if scaled.1 = 0 then (scaled.2, [])
      else if M.lsReplayActive = false ∧ M.eventStepConservative = false ∧
          M.inDeviceService = false then chargeBatch D M scaled.1 scaled.2
      else chargeUnscaled D M scaled.1 scaled.2
  else chargeUnscaled D M cycles c

def bbDeferBegin : Step (Clock S R) (ℕ × ε) := fun c => ({ c with bbDefer := c.bbDefer + 1 }, [])

def bbDeferEnd : Step (Clock S R) (ℕ × ε) := fun c =>
  let c := if c.bbDefer > 0 then { c with bbDefer := c.bbDefer - 1 } else c
  if c.bbDefer = 0 then batchFlush D M c else (c, [])

/-- `psx_cyc_local_begin` with an accumulator. -/
def localBegin : Step (Clock S R) (ℕ × ε) := fun c => ({ c with localAcc := some 0 }, [])

def localEnd : Step (Clock S R) (ℕ × ε) :=
  seq (localPublish D M) fun c => ({ c with localAcc := none }, [])

end PsxRecomp.Cycles
