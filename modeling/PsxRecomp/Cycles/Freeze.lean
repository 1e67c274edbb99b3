import Mathlib
import PsxRecomp.Cycles.Conservation

/-! Sections in which guest time stands still: render passes and uncharged guest calls. The
charging functions of the clock appear here once more with `g_psx_guest_time_frozen`, which a
charge may clear when an uncharged section runs over its budget. -/
namespace PsxRecomp.Cycles
open Transducer
set_option autoImplicit false

/-! ## State -/

/-- The clock with the variables of the freeze. `freezeOverrun` says that the pointer is set; the
function behind it leaves the pass and returns to no charge. -/
structure GuestTime (S R : Type*) where
  clock : Clock S R
  fastLimit : ℕ
  inDeviceService : Bool
  renderPassActive : Bool
  guestTimeFrozen : Bool
  freezeStart : ℕ
  freezeLimit : ℕ
  freezeOverrun : Bool
  unchargedActive : Bool
  unchargedThawed : Bool

/-- `local_acc` and `local_acc_value` are one field. The gates of the scale stay where they are
under charges, so of the scale's snapshot only the fraction is kept. -/
structure PsxCycleFreeze where
  cycleCount : ℕ
  nextService : ℕ
  fastLimit : ℕ
  batch : ℕ
  batchLimit : ℕ
  localAcc : Option ℕ
  inDeviceService : Bool
  bbDefer : ℤ
  guestCycleScale : ℕ
deriving DecidableEq

variable {S R ε : Type*} (D : DeviceSet S R ε) (M : Modes)

namespace GuestTime

def addCycles (g : GuestTime S R) (cycles : ℕ) : GuestTime S R :=
  { g with clock := g.clock.addCycles cycles }

def onClock (f : Step (Clock S R) (ℕ × ε)) : Step (GuestTime S R) (ℕ × ε) := fun g =>
  ({ g with clock := (f g.clock).1 }, (f g.clock).2)

/-! ## Servicing -/

/-- `psx_cycle_freeze_tick` -/
def freezeTick (g : GuestTime S R) : GuestTime S R :=
  let g := { g with
    clock := { g.clock with nextServiceCycle := g.clock.cycleCount + 16384 }, fastLimit := 0 }
  if g.freezeLimit = 0 ∨ g.clock.cycleCount - g.freezeStart ≤ g.freezeLimit then g
  else if g.unchargedActive then
    -- over budget: the rest of the call runs on the live clock
    { g with
      guestTimeFrozen := false, freezeLimit := 0, unchargedThawed := true
      clock := { g.clock with nextServiceCycle := 0 } }
  else { g with freezeOverrun := false }

def serviceToNow : Step (GuestTime S R) (ℕ × ε) := fun g =>
  if g.guestTimeFrozen then (freezeTick g, [])
  else if g.inDeviceService then (g, [])
  else onClock (devicesServiceToNow D { M with inDeviceService := false }) { g with fastLimit := 0 }

def serviceIfDue : Step (GuestTime S R) (ℕ × ε) := fun g =>
  if g.clock.nextServiceCycle = 0 ∨ g.clock.cycleCount ≥ g.clock.nextServiceCycle then
    serviceToNow D M g
  else (g, [])

/-! ## Publishing cycles -/

def advanceCyclesSlow (cycles : ℕ) : Step (GuestTime S R) (ℕ × ε) := fun g =>
  if M.lsReplayActive then
    if M.cycleReplayActive then (g.addCycles cycles, []) else (g, [])
  else if cycles = 0 then (g, [])
  else if g.guestTimeFrozen then
    let g := g.addCycles cycles
    if g.clock.cycleCount ≥ g.clock.nextServiceCycle then (freezeTick g, []) else (g, [])
  else if M.eventStepConservative then onClock (advanceCyclesExact D M cycles) g
  else if g.inDeviceService then (g.addCycles cycles, [])
  else serviceIfDue D M (g.addCycles cycles)

def advancePublished (cycles : ℕ) : Step (GuestTime S R) (ℕ × ε) := fun g =>
  if cycles = 0 then (g, [])
  else if M.lsReplayActive ∨ M.eventStepConservative then advanceCyclesSlow D M cycles g
  else if g.inDeviceService then (g.addCycles cycles, [])
  else serviceIfDue D M (g.addCycles cycles)

def clearBatch (g : GuestTime S R) : GuestTime S R := { g with clock := g.clock.clearBatch }

def advanceCycles (cycles : ℕ) : Step (GuestTime S R) (ℕ × ε) := fun g =>
  let b := g.clock.batch
  if b ≠ 0 then
    if cycles ≤ uint32Max - b then advancePublished D M (cycles + b) g.clearBatch
    else
      seq (fun g => if g.inDeviceService then (g, []) else serviceIfDue D M g)
        (advancePublished D M cycles) (g.clearBatch.addCycles b)
  else advancePublished D M cycles g

def scaled (cycles : ℕ) (g : GuestTime S R) : ℕ × GuestTime S R :=
  ((gcsScale M cycles g.clock).1, { g with clock := (gcsScale M cycles g.clock).2 })

def cpuCharge (cycles : ℕ) : Step (GuestTime S R) (ℕ × ε) := fun g =>
  if M.gcsActive then
    let r := scaled M cycles g
    if r.1 = 0 then (r.2, []) else advanceCycles D M r.1 r.2
  else advanceCycles D M cycles g

def setLocal (acc : Option ℕ) (g : GuestTime S R) : GuestTime S R :=
  { g with clock := { g.clock with localAcc := acc } }

def localPublish : Step (GuestTime S R) (ℕ × ε) := fun g =>
  match g.clock.localAcc with
  | none => (g, [])
  | some v =>
    if v = 0 then (g, [])
    else
      let r := advanceCycles D M v (g.setLocal none)
      (r.1.setLocal (some 0), r.2)

def batchFlush : Step (GuestTime S R) (ℕ × ε) :=
  seq (localPublish D M) fun g =>
    if g.clock.batch = 0 then (g, []) else advanceCycles D M g.clock.batch g.clearBatch

/-! ## Charging -/

def chargeBatch (cycles : ℕ) : Step (GuestTime S R) (ℕ × ε) := fun g =>
  let sum := batchSum g.clock cycles
  if sum ≥ g.clock.batch then
    let limited := { g with clock := limitBatch g.clock }
    if sum < limited.clock.batchLimit then
      ({ limited with clock := { limited.clock with batch := sum } }, [])
    else advanceCycles D M cycles limited
  else advanceCycles D M cycles g

def chargeLocal (cycles prior : ℕ) : Step (GuestTime S R) (ℕ × ε) := fun g =>
  if cycles ≤ uint32Max - prior ∧ prior + cycles < 2 ^ 28 then
    (g.setLocal (some (prior + cycles)), [])
  else
    let r := if prior ≠ 0 then advanceCycles D M prior (g.setLocal none) else (g.setLocal none, [])
    (r.1.setLocal (some cycles), r.2)

def chargeUnscaled (cycles : ℕ) : Step (GuestTime S R) (ℕ × ε) := fun g =>
  if M.lsReplayActive ∨ M.eventStepConservative then advanceCycles D M cycles g
  else if g.inDeviceService then (g.addCycles cycles, [])
  else
    match g.clock.localAcc with
    | some prior => chargeLocal D M cycles prior g
    | none =>
      if batchSum g.clock cycles ≥ g.clock.batch ∧ g.clock.bbDefer > 0 then
        ({ g with clock := { g.clock with batch := batchSum g.clock cycles } }, [])
      else chargeBatch D M cycles g

def cycCharge (cycles : ℕ) : Step (GuestTime S R) (ℕ × ε) := fun g =>
  if cycles = 0 then (g, [])
  else if M.gcsActive then
    if M.gcsBatch = false then cpuCharge D M cycles g
    else
      let r := scaled M cycles g
      if r.1 = 0 then (r.2, [])
      else if M.lsReplayActive = false ∧ M.eventStepConservative = false ∧
          g.inDeviceService = false then chargeBatch D M r.1 r.2
      else chargeUnscaled D M r.1 r.2
  else chargeUnscaled D M cycles g

def bbDeferEnd : Step (GuestTime S R) (ℕ × ε) := fun g =>
  let g := if g.clock.bbDefer > 0 then
    { g with clock := { g.clock with bbDefer := g.clock.bbDefer - 1 } } else g
  if g.clock.bbDefer = 0 then batchFlush D M g else (g, [])

def localEnd : Step (GuestTime S R) (ℕ × ε) :=
  seq (localPublish D M) fun g => (g.setLocal none, [])

def devicesMmioSync : Step (GuestTime S R) (ℕ × ε) :=
  seq (batchFlush D M) fun g =>
    if g.guestTimeFrozen then (freezeTick g, [])
    else if g.clock.devicesSyncedCycle ≠ g.clock.cycleCount then serviceToNow D M g
    else onClock (fun c => (devicesRecomputeDeadline D M c, [])) g

/-- What the code of a section does to the clock. -/
inductive SectionOp where
  | clock (op : ClockOp)
  | serviceToNow
  | mmioSync
deriving DecidableEq

def SectionOp.run : SectionOp → Step (GuestTime S R) (ℕ × ε)
  | .clock (.cycCharge cycles) => GuestTime.cycCharge D M cycles.toNat
  | .clock (.cpuCharge cycles) => GuestTime.cpuCharge D M cycles.toNat
  | .clock (.advanceCycles cycles) => GuestTime.advanceCycles D M cycles.toNat
  | .clock .batchFlush => GuestTime.batchFlush D M
  | .clock .bbDeferBegin => onClock Cycles.bbDeferBegin
  | .clock .bbDeferEnd => GuestTime.bbDeferEnd D M
  | .clock .localBegin => onClock Cycles.localBegin
  | .clock .localEnd => GuestTime.localEnd D M
  | .serviceToNow => GuestTime.serviceToNow D M
  | .mmioSync => GuestTime.devicesMmioSync D M

def runSection : List SectionOp → Step (GuestTime S R) (ℕ × ε)
  | [] => skip
  | op :: ops => seq (op.run D M) (runSection ops)

/-! ## Sections -/

/-- Pending deferred charges stay pending in the record: they belong to the interrupted code. -/
def freezeSave (g : GuestTime S R) : PsxCycleFreeze × GuestTime S R :=
  ({ cycleCount := g.clock.cycleCount
     nextService := g.clock.nextServiceCycle
     fastLimit := g.fastLimit
     batch := g.clock.batch
     batchLimit := g.clock.batchLimit
     localAcc := g.clock.localAcc
     inDeviceService := g.inDeviceService
     bbDefer := g.clock.bbDefer
     guestCycleScale := g.clock.gcsFrac },
   { g with
     clock := { g.clock with batch := 0, batchLimit := 0, localAcc := none }
     inDeviceService := false
     freezeStart := g.clock.cycleCount })

def freezeRestoreDeferred (save : PsxCycleFreeze) (g : GuestTime S R) : GuestTime S R :=
  { g with
    clock := { g.clock with
      batch := save.batch, batchLimit := save.batchLimit
      localAcc := save.localAcc, bbDefer := save.bbDefer }
    inDeviceService := save.inDeviceService }

def freezeRestoreClock (save : PsxCycleFreeze) (g : GuestTime S R) : GuestTime S R :=
  { g with
    clock := { g.clock with cycleCount := save.cycleCount, nextServiceCycle := save.nextService }
    fastLimit := save.fastLimit }

/-- `psx_guest_cycle_scale_restore` with its gates as they are. -/
def guestCycleScaleRestore (frac : ℕ) (g : GuestTime S R) : GuestTime S R :=
  { g with clock := { g.clock with gcsFrac := if M.gcsActive then frac % 65536 else 0 } }

def freezeBegin (watchdogCycles : ℕ) (overrun : Bool) (g : GuestTime S R) :
    Option (PsxCycleFreeze × GuestTime S R) :=
  if g.guestTimeFrozen then none
  else
    let r := freezeSave g
    some (r.1, freezeTick { r.2 with
      freezeLimit := watchdogCycles, freezeOverrun := overrun
      renderPassActive := true, guestTimeFrozen := true })

def freezeEnd (save : PsxCycleFreeze) (g : GuestTime S R) : GuestTime S R :=
  let g := { g with
    renderPassActive := false, guestTimeFrozen := false, freezeOverrun := false, freezeLimit := 0 }
  guestCycleScaleRestore M save.guestCycleScale
    (freezeRestoreDeferred save (freezeRestoreClock save g))

def unchargedBegin (budgetCycles : ℕ) (g : GuestTime S R) :
    Option (PsxCycleFreeze × GuestTime S R) :=
  if g.guestTimeFrozen then none
  else
    let r := freezeSave g
    some (r.1, freezeTick { r.2 with
      freezeLimit := budgetCycles, freezeOverrun := false
      unchargedActive := true, unchargedThawed := false, guestTimeFrozen := true })

def unchargedEnd (save : PsxCycleFreeze) (g : GuestTime S R) : Bool × GuestTime S R :=
  let uncharged := !g.unchargedThawed
  let g := { g with
    guestTimeFrozen := false, unchargedActive := false, unchargedThawed := false, freezeLimit := 0 }
  let g := if uncharged then freezeRestoreClock save g else g
  (uncharged, freezeRestoreDeferred save g)

/-! ## Outside a section -/

/-- Time is not frozen, and the device-service flag is the one the modes name. -/
def Live (g : GuestTime S R) : Prop :=
  g.guestTimeFrozen = false ∧ g.inDeviceService = M.inDeviceService

/-- On live time the step is a step of the clock. -/
def Lifts (f : Step (GuestTime S R) (ℕ × ε)) (f₀ : Step (Clock S R) (ℕ × ε)) : Prop :=
  ∀ g, Live M g → (f g).1.clock = (f₀ g.clock).1 ∧ (f g).2 = (f₀ g.clock).2 ∧ Live M (f g).1

/-- Live time around a clock. -/
def awake (c : Clock S R) : GuestTime S R where
  clock := c
  fastLimit := 0
  inDeviceService := M.inDeviceService
  renderPassActive := false
  guestTimeFrozen := false
  freezeStart := 0
  freezeLimit := 0
  freezeOverrun := false
  unchargedActive := false
  unchargedThawed := false

theorem Lifts.seq {f h : Step (GuestTime S R) (ℕ × ε)} {f₀ h₀ : Step (Clock S R) (ℕ × ε)}
    (hf : Lifts M f f₀) (hh : Lifts M h h₀) : Lifts M (seq f h) (seq f₀ h₀) := by
  intro g hg
  obtain ⟨hclock, hevents, hlive⟩ := hf g hg
  obtain ⟨hclock', hevents', hlive'⟩ := hh _ hlive
  refine ⟨?_, ?_, hlive'⟩
  · rw [seq_fst, seq_fst, hclock', hclock]
  · rw [seq_snd, seq_snd, hevents, hevents', hclock]

theorem onClock_lifts (f : Step (Clock S R) (ℕ × ε)) : Lifts M (onClock f) f :=
  fun _ hg => ⟨rfl, rfl, hg⟩

theorem serviceToNow_lifts : Lifts M (serviceToNow D M) (devicesServiceToNow D M) := by
  intro g hg
  obtain ⟨hfrozen, hservice⟩ := hg
  rw [serviceToNow, if_neg (by simp [hfrozen])]
  cases hin : M.inDeviceService with
  | true =>
    rw [if_pos (hservice.trans hin), devicesServiceToNow, if_pos hin]
    exact ⟨rfl, rfl, hfrozen, hservice⟩
  | false =>
    have hmodes : { M with inDeviceService := false } = M := by rw [← hin]
    rw [if_neg (by simp [hservice, hin]), hmodes]
    exact ⟨rfl, rfl, hfrozen, hservice⟩

theorem serviceIfDue_lifts : Lifts M (serviceIfDue D M) (Cycles.serviceIfDue D M) := by
  intro g hg
  rw [serviceIfDue, Cycles.serviceIfDue]
  split_ifs
  · exact serviceToNow_lifts D M g hg
  · exact ⟨rfl, rfl, hg⟩

theorem advanceCyclesSlow_lifts (n : ℕ) :
    Lifts M (advanceCyclesSlow D M n) (Cycles.advanceCyclesSlow D M n) := by
  intro g hg
  simp only [advanceCyclesSlow, Cycles.advanceCyclesSlow, hg.1, hg.2, Bool.false_eq_true, if_false]
  split_ifs
  · exact ⟨rfl, rfl, hg⟩
  · exact ⟨rfl, rfl, hg⟩
  · exact ⟨rfl, rfl, hg⟩
  · exact ⟨rfl, rfl, hg⟩
  · exact ⟨rfl, rfl, hg⟩
  · exact serviceIfDue_lifts D M _ hg

theorem advancePublished_lifts (n : ℕ) :
    Lifts M (advancePublished D M n) (Cycles.advancePublished D M n) := by
  intro g hg
  simp only [advancePublished, Cycles.advancePublished, hg.2]
  split_ifs
  · exact ⟨rfl, rfl, hg⟩
  · exact advanceCyclesSlow_lifts D M n g hg
  · exact ⟨rfl, rfl, hg⟩
  · exact serviceIfDue_lifts D M _ hg

theorem advanceCycles_lifts (n : ℕ) :
    Lifts M (advanceCycles D M n) (Cycles.advanceCycles D M n) := by
  intro g hg
  have hsettle : Lifts M
      (fun g : GuestTime S R => if g.inDeviceService then (g, []) else serviceIfDue D M g)
      (fun c => if M.inDeviceService then (c, []) else Cycles.serviceIfDue D M c) := by
    intro g hg
    simp only [hg.2]
    split_ifs
    · exact ⟨rfl, rfl, hg⟩
    · exact serviceIfDue_lifts D M g hg
  rw [advanceCycles, Cycles.advanceCycles]
  by_cases hb : g.clock.batch ≠ 0
  · by_cases hfit : n ≤ uint32Max - g.clock.batch
    · simp only [if_pos hb, if_pos hfit]
      exact advancePublished_lifts D M _ g.clearBatch hg
    · simp only [if_pos hb, if_neg hfit]
      exact (hsettle.seq M (advancePublished_lifts D M n))
        (g.clearBatch.addCycles g.clock.batch) hg
  · simp only [if_neg hb]
    exact advancePublished_lifts D M n g hg

theorem scaled_lifts (n : ℕ) {pay : ℕ → Step (GuestTime S R) (ℕ × ε)}
    {pay₀ : ℕ → Step (Clock S R) (ℕ × ε)} (hpay : ∀ m, Lifts M (pay m) (pay₀ m)) :
    Lifts M
      (fun g => if (scaled M n g).1 = 0 then ((scaled M n g).2, [])
        else pay (scaled M n g).1 (scaled M n g).2)
      (fun c => if (gcsScale M n c).1 = 0 then ((gcsScale M n c).2, [])
        else pay₀ (gcsScale M n c).1 (gcsScale M n c).2) := by
  intro g hg
  by_cases hz : (gcsScale M n g.clock).1 = 0
  · have hz' : (scaled M n g).1 = 0 := hz
    simp only [if_pos hz, if_pos hz']
    exact ⟨rfl, trivial, hg⟩
  · have hz' : ¬ (scaled M n g).1 = 0 := hz
    simp only [if_neg hz, if_neg hz']
    exact hpay _ (scaled M n g).2 hg

theorem cpuCharge_lifts (n : ℕ) : Lifts M (cpuCharge D M n) (Cycles.cpuCharge D M n) := by
  intro g hg
  rw [cpuCharge, Cycles.cpuCharge]
  by_cases hactive : M.gcsActive = true
  · simp only [if_pos hactive]
    exact scaled_lifts M n (advanceCycles_lifts D M) g hg
  · simp only [if_neg hactive]
    exact advanceCycles_lifts D M n g hg

theorem localPublish_lifts : Lifts M (localPublish D M) (Cycles.localPublish D M) := by
  intro g hg
  rw [localPublish, Cycles.localPublish]
  cases g.clock.localAcc with
  | none => exact ⟨rfl, rfl, hg⟩
  | some v =>
    dsimp only
    split_ifs
    · exact ⟨rfl, rfl, hg⟩
    · obtain ⟨hclock, hevents, hlive⟩ := advanceCycles_lifts D M v (g.setLocal none) hg
      refine ⟨?_, hevents, hlive⟩
      simp only [setLocal] at hclock ⊢
      rw [hclock]

theorem batchFlush_lifts : Lifts M (batchFlush D M) (Cycles.batchFlush D M) := by
  apply (localPublish_lifts D M).seq
  intro g hg
  dsimp only
  split_ifs
  · exact ⟨rfl, rfl, hg⟩
  · exact advanceCycles_lifts D M _ g.clearBatch hg

theorem chargeBatch_lifts (n : ℕ) : Lifts M (chargeBatch D M n) (Cycles.chargeBatch D M n) := by
  intro g hg
  simp only [chargeBatch, Cycles.chargeBatch]
  split_ifs
  · exact ⟨rfl, rfl, hg⟩
  · exact advanceCycles_lifts D M n { g with clock := limitBatch g.clock } hg
  · exact advanceCycles_lifts D M n g hg

theorem chargeLocal_lifts (n prior : ℕ) :
    Lifts M (chargeLocal D M n prior) (Cycles.chargeLocal D M n prior) := by
  intro g hg
  rw [chargeLocal, Cycles.chargeLocal]
  split_ifs
  · exact ⟨rfl, rfl, hg⟩
  · obtain ⟨hclock, hevents, hlive⟩ := advanceCycles_lifts D M prior (g.setLocal none) hg
    refine ⟨?_, hevents, hlive⟩
    simp only [setLocal] at hclock ⊢
    rw [hclock]
  · exact ⟨rfl, rfl, hg⟩

theorem chargeUnscaled_lifts (n : ℕ) :
    Lifts M (chargeUnscaled D M n) (Cycles.chargeUnscaled D M n) := by
  intro g hg
  rw [chargeUnscaled, Cycles.chargeUnscaled, hg.2]
  by_cases hslow : M.lsReplayActive = true ∨ M.eventStepConservative = true
  · simp only [if_pos hslow]
    exact advanceCycles_lifts D M n g hg
  by_cases hnested : M.inDeviceService = true
  · simp only [if_neg hslow, if_pos hnested]
    exact ⟨rfl, trivial, hg⟩
  simp only [if_neg hslow, if_neg hnested]
  cases g.clock.localAcc with
  | some prior => exact chargeLocal_lifts D M n prior g hg
  | none =>
    by_cases hdefer : batchSum g.clock n ≥ g.clock.batch ∧ g.clock.bbDefer > 0
    · simp only [if_pos hdefer]
      exact ⟨trivial, trivial, hg.1, rfl⟩
    · simp only [if_neg hdefer]
      exact chargeBatch_lifts D M n g hg

theorem cycCharge_lifts (n : ℕ) : Lifts M (cycCharge D M n) (Cycles.cycCharge D M n) := by
  intro g hg
  rw [cycCharge, Cycles.cycCharge]
  by_cases hz : n = 0
  · simp only [if_pos hz]
    exact ⟨trivial, trivial, hg⟩
  by_cases hactive : M.gcsActive = true
  · by_cases hbatch : M.gcsBatch = false
    · simp only [if_neg hz, if_pos hactive, if_pos hbatch]
      exact cpuCharge_lifts D M n g hg
    · simp only [if_neg hz, if_pos hactive, if_neg hbatch, hg.2]
      by_cases hbase : M.lsReplayActive = false ∧ M.eventStepConservative = false ∧
          M.inDeviceService = false
      · simp only [if_pos hbase]
        exact scaled_lifts M n (chargeBatch_lifts D M) g hg
      · simp only [if_neg hbase]
        exact scaled_lifts M n (chargeUnscaled_lifts D M) g hg
  · simp only [if_neg hz, if_neg hactive]
    exact chargeUnscaled_lifts D M n g hg

theorem bbDeferEnd_lifts : Lifts M (bbDeferEnd D M) (Cycles.bbDeferEnd D M) := by
  intro g hg
  simp only [bbDeferEnd, Cycles.bbDeferEnd]
  by_cases hpos : g.clock.bbDefer > 0
  · simp only [if_pos hpos]
    split_ifs
    · exact batchFlush_lifts D M
        { g with clock := { g.clock with bbDefer := g.clock.bbDefer - 1 } } hg
    · exact ⟨rfl, rfl, hg⟩
  · simp only [if_neg hpos]
    split_ifs
    · exact batchFlush_lifts D M g hg
    · exact ⟨rfl, rfl, hg⟩

/-- Outside a section these are the charges of the clock. -/
theorem clockOp_lifts (op : ClockOp) :
    Lifts M (SectionOp.run D M (.clock op)) (op.run D M) := by
  cases op with
  | cycCharge n => exact cycCharge_lifts D M n.toNat
  | cpuCharge n => exact cpuCharge_lifts D M n.toNat
  | advanceCycles n => exact advanceCycles_lifts D M n.toNat
  | batchFlush => exact batchFlush_lifts D M
  | bbDeferBegin => exact onClock_lifts M _
  | bbDeferEnd => exact bbDeferEnd_lifts D M
  | localBegin => exact onClock_lifts M _
  | localEnd =>
    exact (localPublish_lifts D M).seq M fun g hg => ⟨rfl, rfl, hg⟩

theorem runClock_lifts (ops : List ClockOp) :
    Lifts M (runSection D M (ops.map .clock)) (runOps D M ops) := by
  induction ops with
  | nil => exact fun g hg => ⟨rfl, rfl, hg⟩
  | cons op ops ih => exact (clockOp_lifts D M op).seq M ih

end GuestTime

end PsxRecomp.Cycles
