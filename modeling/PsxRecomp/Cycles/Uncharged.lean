import Mathlib
import PsxRecomp.Cycles.Sequences

/-! What a section leaves behind. The end of a section puts the interrupted code's clock and
pending amounts back, whatever its charges were. -/
namespace PsxRecomp.Cycles
open Transducer
set_option autoImplicit false

variable {S R ε : Type*} (D : DeviceSet S R ε) (M : Modes)

namespace GuestTime

/-! ## Sections -/

/-- The carried fraction is below one cycle, and there is none without a scale. -/
structure Carried (c : Clock S R) : Prop where
  frac : c.gcsFrac < 65536
  idle : M.gcsActive = false → c.gcsFrac = 0

/-- The interrupted code finds its clock and everything it has pending as they were. -/
structure Invisible (g h : GuestTime S R) : Prop where
  cycleCount : h.clock.cycleCount = g.clock.cycleCount
  nextService : h.clock.nextServiceCycle = g.clock.nextServiceCycle
  fastLimit : h.fastLimit = g.fastLimit
  batch : h.clock.batch = g.clock.batch
  batchLimit : h.clock.batchLimit = g.clock.batchLimit
  localAcc : h.clock.localAcc = g.clock.localAcc
  bbDefer : h.clock.bbDefer = g.clock.bbDefer
  inDeviceService : h.inDeviceService = g.inDeviceService
  gcsFrac : h.clock.gcsFrac = g.clock.gcsFrac

/-- The clock is ahead by `units` of 1/65536 cycle, and what was pending is pending still. -/
structure Charged (units : ℕ) (g h : GuestTime S R) : Prop where
  clock : 65536 * h.clock.cycleCount + h.clock.gcsFrac =
    65536 * g.clock.cycleCount + g.clock.gcsFrac + units
  batch : h.clock.batch = g.clock.batch
  batchLimit : h.clock.batchLimit = g.clock.batchLimit
  localAcc : h.clock.localAcc = g.clock.localAcc
  bbDefer : h.clock.bbDefer = g.clock.bbDefer
  inDeviceService : h.inDeviceService = g.inDeviceService

def freezeSection (watchdogCycles : ℕ) (overrun : Bool) (ops : List SectionOp)
    (g : GuestTime S R) : Option (GuestTime S R) :=
  (freezeBegin watchdogCycles overrun g).map fun r =>
    freezeEnd M r.1 (runSection D M ops r.2).1

def unchargedSection (budgetCycles : ℕ) (ops : List SectionOp) (g : GuestTime S R) :
    Option (Bool × GuestTime S R) :=
  (unchargedBegin budgetCycles g).map fun r => unchargedEnd r.1 (runSection D M ops r.2).1

/-- The guest time before the first operation of an uncharged section. -/
def opened (budgetCycles : ℕ) (g : GuestTime S R) : GuestTime S R :=
  freezeTick { (freezeSave g).2 with
    freezeLimit := budgetCycles, freezeOverrun := false
    unchargedActive := true, unchargedThawed := false, guestTimeFrozen := true }

theorem unchargedSection_eq (budget : ℕ) (ops : List SectionOp) (g : GuestTime S R)
    (hlive : g.guestTimeFrozen = false) :
    unchargedSection D M budget ops g =
      some (unchargedEnd (freezeSave g).1 (runSection D M ops (opened budget g)).1) := by
  simp only [unchargedSection, unchargedBegin, hlive, Bool.false_eq_true, if_false,
    Option.map_some]
  rfl

/-- Whatever a render pass did, even one that was left by a jump, its end puts everything back. -/
theorem freezeEnd_restores (g h : GuestTime S R) (hg : Carried M g.clock) :
    Invisible g (freezeEnd M (freezeSave g).1 h) := by
  refine ⟨rfl, rfl, rfl, rfl, rfl, rfl, rfl, rfl, ?_⟩
  simp only [freezeEnd, guestCycleScaleRestore, freezeSave]
  split_ifs with hactive
  · exact Nat.mod_eq_of_lt hg.frac
  · exact (hg.idle (by simpa using hactive)).symm

theorem freezeSection_invisible (watchdog : ℕ) (overrun : Bool) (ops : List SectionOp)
    (g h : GuestTime S R) (hg : Carried M g.clock)
    (hh : freezeSection D M watchdog overrun ops g = some h) : Invisible g h := by
  rw [freezeSection, freezeBegin] at hh
  split_ifs at hh
  · cases hh
  · simp only [Option.map_some, Option.some.injEq] at hh
    rw [← hh]
    exact freezeEnd_restores M g _ hg

theorem opened_fits (budget : ℕ) (g : GuestTime S R) (hg : Carried M g.clock) :
    Fits (opened budget g).clock :=
  fits_of_accounts (freezeTick_moved _).accounts ⟨by simp [freezeSave],
    by simp [freezeSave, Clock.localPending], hg.frac⟩

theorem opened_value (budget : ℕ) (g : GuestTime S R) :
    clockValue (opened budget g).clock = 65536 * g.clock.cycleCount + g.clock.gcsFrac := by
  rw [opened, value_of_accounts (freezeTick_moved _).accounts]
  simp only [clockValue, getCycleCount, freezeSave, Clock.localPending, Option.getD_none]
  ring

section Uncharged
variable (hreplay : M.lsReplayActive = false) (hrecip : M.gcsRecip ≤ 65536)
include hreplay hrecip

/-- The account of a section: what is on the counted clock, what is still pending, and what a
replaced accumulator took with it make up what was charged. -/
theorem section_account (budget : ℕ) (ops : List SectionOp) (g : GuestTime S R)
    (hg : Carried M g.clock) :
    let t := (runSection D M ops (opened budget g)).1
    t.clock.gcsFrac < 65536 ∧
      65536 * (t.clock.cycleCount + t.clock.pending + dropped D M ops (opened budget g)) +
          t.clock.gcsFrac =
        65536 * g.clock.cycleCount + g.clock.gcsFrac + chargedUnits M ops := by
  obtain ⟨hfits, hval, -⟩ :=
    runSection_moves D M hreplay hrecip ops _ (opened_fits M budget g hg)
  rw [opened_value] at hval
  refine ⟨hfits.frac, ?_⟩
  simp only [clockValue, getCycleCount] at hval
  simp only [Clock.pending]
  omega

/-- Within budget the carried fraction alone may differ. -/
theorem within_budget_iff (budget : ℕ) (ops : List SectionOp) (g : GuestTime S R)
    (hg : Carried M g.clock)
    (hkept : (runSection D M ops (opened budget g)).1.unchargedThawed = false) :
    Invisible g (unchargedEnd (freezeSave g).1 (runSection D M ops (opened budget g)).1).2 ↔
      65536 ∣ M.gcsRecip * (ops.map SectionOp.cpuCycles).sum := by
  obtain ⟨hlt, haccount⟩ := section_account D M hreplay hrecip budget ops g hg
  have hfrac := hg.frac
  have hend : (unchargedEnd (freezeSave g).1
      (runSection D M ops (opened budget g)).1).2.clock.gcsFrac =
      (runSection D M ops (opened budget g)).1.clock.gcsFrac := by
    simp only [unchargedEnd, hkept, Bool.not_false, if_true]
    rfl
  simp only [chargedUnits] at haccount
  constructor
  · intro h
    have hsame := h.gcsFrac
    rw [hend] at hsame
    omega
  · intro hdvd
    have hsame : (runSection D M ops (opened budget g)).1.clock.gcsFrac = g.clock.gcsFrac := by
      omega
    simp only [unchargedEnd, hkept, Bool.not_false, if_true]
    exact ⟨rfl, rfl, rfl, rfl, rfl, rfl, rfl, rfl, hsame⟩

/-- After a thaw the cycles still pending at the end are the ones that are lost. -/
theorem thawed_iff (budget : ℕ) (ops : List SectionOp) (g : GuestTime S R)
    (hg : Carried M g.clock)
    (hthaw : (runSection D M ops (opened budget g)).1.unchargedThawed = true) :
    Charged (chargedUnits M ops) g
        (unchargedEnd (freezeSave g).1 (runSection D M ops (opened budget g)).1).2 ↔
      dropped D M ops (opened budget g) = 0 ∧
        (runSection D M ops (opened budget g)).1.clock.pending = 0 := by
  obtain ⟨-, haccount⟩ := section_account D M hreplay hrecip budget ops g hg
  have hend : unchargedEnd (freezeSave g).1 (runSection D M ops (opened budget g)).1 =
      (false, freezeRestoreDeferred (freezeSave g).1
        { (runSection D M ops (opened budget g)).1 with
          guestTimeFrozen := false, unchargedActive := false
          unchargedThawed := false, freezeLimit := 0 }) := by
    simp only [unchargedEnd, hthaw, Bool.not_true, Bool.false_eq_true, if_false]
  rw [hend]
  constructor
  · intro h
    have hclock := h.clock
    simp only [freezeRestoreDeferred] at hclock
    omega
  · rintro ⟨hdrop, hpend⟩
    refine ⟨?_, rfl, rfl, rfl, rfl, rfl⟩
    simp only [freezeRestoreDeferred]
    rw [hdrop, hpend] at haccount
    exact haccount

end Uncharged

/-- Both kinds of section, with the same code run in each. -/
def SectionsExact (watchdog : ℕ) (overrun : Bool) (budget : ℕ) (ops : List SectionOp)
    (g : GuestTime S R) : Prop :=
  (∀ h, freezeSection D M watchdog overrun ops g = some h → Invisible g h) ∧
    ∀ uncharged h, unchargedSection D M budget ops g = some (uncharged, h) →
      if uncharged then Invisible g h else Charged (chargedUnits M ops) g h

/-- An uncharged section has nothing pending once it has thawed, and before that it has moved
the fraction of the scale by whole cycles only. -/
def Settled (budget : ℕ) (ops : List SectionOp) (g : GuestTime S R) : Prop :=
  let inside := opened budget g
  let t := (runSection D M ops inside).1
  if t.unchargedThawed then dropped D M ops inside = 0 ∧ t.clock.pending = 0
  else 65536 ∣ M.gcsRecip * (ops.map SectionOp.cpuCycles).sum

theorem sections_exact_iff (hreplay : M.lsReplayActive = false) (scale : ℕ)
    (hscale : M.gcsRecip = gcsRecipFor scale) (watchdog : ℕ) (overrun : Bool) (budget : ℕ)
    (ops : List SectionOp) (g : GuestTime S R) (hlive : g.guestTimeFrozen = false)
    (hg : Carried M g.clock) :
    SectionsExact D M watchdog overrun budget ops g ↔ Settled D M budget ops g := by
  have hrecip : M.gcsRecip ≤ 65536 := by
    rw [hscale]
    exact gcsRecipFor_le scale
  have hfreeze := fun h => freezeSection_invisible D M watchdog overrun ops g h hg
  have hsection := unchargedSection_eq D M budget ops g hlive
  rw [SectionsExact, and_iff_right hfreeze, hsection, Settled]
  cases hthaw : (runSection D M ops (opened budget g)).1.unchargedThawed with
  | false =>
    have huncharged : (unchargedEnd (freezeSave g).1
        (runSection D M ops (opened budget g)).1).1 = true := by
      simp only [unchargedEnd, hthaw, Bool.not_false]
    rw [← within_budget_iff D M hreplay hrecip budget ops g hg hthaw]
    simp only [Bool.false_eq_true, if_false, Option.some.injEq]
    constructor
    · intro h
      have hinv := h true _ (Prod.ext huncharged rfl)
      rwa [if_pos rfl] at hinv
    · intro h uncharged t ht
      rw [ht] at h huncharged
      rw [if_pos huncharged]
      exact h
  | true =>
    have hcharged : (unchargedEnd (freezeSave g).1
        (runSection D M ops (opened budget g)).1).1 = false := by
      simp only [unchargedEnd, hthaw, Bool.not_true]
    simp only [if_true, Option.some.injEq]
    rw [← thawed_iff D M hreplay hrecip budget ops g hg hthaw]
    constructor
    · intro h
      have hinv := h false _ (Prod.ext hcharged rfl)
      rwa [if_neg Bool.false_ne_true] at hinv
    · intro h uncharged t ht
      rw [ht] at h hcharged
      have hoff : ¬ uncharged = true := by simp only at hcharged; simp [hcharged]
      rw [if_neg hoff]
      exact h

/-- A live clock at rest; the interrupted function holds a deferral bracket. -/
def interrupted : GuestTime Unit Unit where
  clock := { coldClock with bbDefer := 1 }
  fastLimit := 0
  inDeviceService := false
  renderPassActive := false
  guestTimeFrozen := false
  freezeStart := 0
  freezeLimit := 0
  freezeOverrun := false
  unchargedActive := false
  unchargedThawed := false

/-- A call that overruns a budget of ten cycles and charges five more before it returns. -/
def overrunCall : List SectionOp := [.clock (.advanceCycles 20000), .clock (.cycCharge 5)]

theorem thawed_call_loses :
    ¬ SectionsExact idleDevices productionModes 0 false 10 overrunCall interrupted := by
  intro h
  have hend : unchargedSection idleDevices productionModes 10 overrunCall interrupted =
      some (false, _) := rfl
  have hcharged := h.2 _ _ hend
  rw [if_neg Bool.false_ne_true] at hcharged
  have hclock := hcharged.clock
  revert hclock
  decide

theorem sections_exact_within_budget :
    SectionsExact idleDevices productionModes 0 false 4000000 overrunCall interrupted :=
  (sections_exact_iff idleDevices productionModes rfl 1 rfl 0 false 4000000 overrunCall
    interrupted rfl ⟨by decide, fun _ => rfl⟩).mpr (by rw [Settled]; decide)

end GuestTime

end PsxRecomp.Cycles
