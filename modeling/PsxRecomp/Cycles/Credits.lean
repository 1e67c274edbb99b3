import Mathlib
import PsxRecomp.Cycles.Freeze

/-! What a charge credits, inside a section or outside one: every charge moves the counted clock
by what was charged, and while time is frozen no device moves. -/
namespace PsxRecomp.Cycles
open Transducer
set_option autoImplicit false

variable {S R ε : Type*} (D : DeviceSet S R ε) (M : Modes)

namespace GuestTime

/-! ## Servicing a frozen clock -/

/-- As long as time is still frozen no device has moved, and time is frozen until it thaws. -/
structure Undisturbed (g h : GuestTime S R) : Prop where
  still : h.guestTimeFrozen = true → g.guestTimeFrozen = true ∧
    h.clock.devices = g.clock.devices ∧
    h.clock.devicesSyncedCycle = g.clock.devicesSyncedCycle ∧
    h.clock.nextCycleSample = g.clock.nextCycleSample
  thaw : h.unchargedThawed = false →
    g.unchargedThawed = false ∧ (g.guestTimeFrozen = true → h.guestTimeFrozen = true)

theorem Undisturbed.trans {a b c : GuestTime S R} (h : Undisturbed a b) (h' : Undisturbed b c) :
    Undisturbed a c := by
  constructor
  · intro hc
    obtain ⟨hb, hdev', hsync', hsample'⟩ := h'.still hc
    obtain ⟨ha, hdev, hsync, hsample⟩ := h.still hb
    exact ⟨ha, hdev'.trans hdev, hsync'.trans hsync, hsample'.trans hsample⟩
  · intro hc
    obtain ⟨hb, hfrozen'⟩ := h'.thaw hc
    obtain ⟨ha, hfrozen⟩ := h.thaw hb
    exact ⟨ha, fun hf => hfrozen' (hfrozen hf)⟩

theorem Undisturbed.of_fields {g h : GuestTime S R}
    (hfrozen : h.guestTimeFrozen = g.guestTimeFrozen)
    (hthawed : h.unchargedThawed = g.unchargedThawed)
    (hdev : h.clock.devices = g.clock.devices)
    (hsync : h.clock.devicesSyncedCycle = g.clock.devicesSyncedCycle)
    (hsample : h.clock.nextCycleSample = g.clock.nextCycleSample) : Undisturbed g h :=
  ⟨fun hh => ⟨hfrozen ▸ hh, hdev, hsync, hsample⟩, fun hh => ⟨hthawed ▸ hh, hfrozen.trans⟩⟩

theorem Undisturbed.refl (g : GuestTime S R) : Undisturbed g g := .of_fields rfl rfl rfl rfl rfl

/-- The state holds the cycles of the clock `c`, and came from `g` undisturbed. -/
structure Moved (c : Clock S R) (g h : GuestTime S R) : Prop where
  accounts : SameAccounts c h.clock
  still : Undisturbed g h

theorem Moved.trans {c : Clock S R} {a b d : GuestTime S R} (h : Moved c a b)
    (h' : Moved b.clock b d) : Moved c a d :=
  ⟨h.accounts.trans h'.accounts, h.still.trans h'.still⟩

theorem Moved.refl (g : GuestTime S R) : Moved g.clock g g :=
  ⟨SameAccounts.refl _, Undisturbed.refl g⟩

theorem freezeTick_moved (g : GuestTime S R) : Moved g.clock g (freezeTick g) := by
  simp only [freezeTick]
  split_ifs
  · exact ⟨⟨rfl, rfl, rfl, rfl⟩, .of_fields rfl rfl rfl rfl rfl⟩
  · exact ⟨⟨rfl, rfl, rfl, rfl⟩, nofun, nofun⟩
  · exact ⟨⟨rfl, rfl, rfl, rfl⟩, .of_fields rfl rfl rfl rfl rfl⟩

/-- A step on the live clock leaves nothing to say about frozen devices. -/
theorem onClock_moved {c : Clock S R} {f : Step (Clock S R) (ℕ × ε)} {g : GuestTime S R}
    (hlive : g.guestTimeFrozen = false) (hacc : SameAccounts c (f g.clock).1) :
    Moved c g (onClock f g).1 :=
  ⟨hacc, fun h => by simp [onClock, hlive] at h, fun h => ⟨h, fun hf => hf⟩⟩

theorem serviceToNow_moved (g : GuestTime S R) : Moved g.clock g (serviceToNow D M g).1 := by
  rw [serviceToNow]
  split_ifs with hfrozen
  · exact freezeTick_moved g
  · exact Moved.refl _
  · have hmoved : Moved g.clock { g with fastLimit := 0 }
        (onClock (devicesServiceToNow D { M with inDeviceService := false })
          { g with fastLimit := 0 }).1 :=
      onClock_moved (by simpa using hfrozen) (service_accounts D _ g.clock)
    have hlimit : Undisturbed g { g with fastLimit := 0 } := .of_fields rfl rfl rfl rfl rfl
    exact ⟨hmoved.accounts, hlimit.trans hmoved.still⟩

theorem serviceIfDue_moved (g : GuestTime S R) : Moved g.clock g (serviceIfDue D M g).1 := by
  rw [serviceIfDue]
  split_ifs
  · exact serviceToNow_moved D M g
  · exact Moved.refl _

theorem addCycles_moved (g : GuestTime S R) (n : ℕ) :
    Moved (g.clock.addCycles n) g (g.addCycles n) :=
  ⟨SameAccounts.refl _, .of_fields rfl rfl rfl rfl rfl⟩

/-! ## Publishing cycles -/

section Charging
variable (hreplay : M.lsReplayActive = false)
include hreplay

theorem slow_moved (n : ℕ) (g : GuestTime S R) :
    Moved (g.clock.addCycles n) g (advanceCyclesSlow D M n g).1 := by
  simp only [advanceCyclesSlow, hreplay, Bool.false_eq_true, if_false]
  split_ifs with hz hfrozen hdue
  · subst hz
    exact Moved.refl _
  · exact (addCycles_moved g n).trans (freezeTick_moved _)
  · exact addCycles_moved g n
  · exact onClock_moved (by simpa using hfrozen) (exact_accounts D M n g.clock)
  · exact addCycles_moved g n
  · exact (addCycles_moved g n).trans (serviceIfDue_moved D M _)

theorem published_moved (n : ℕ) (g : GuestTime S R) :
    Moved (g.clock.addCycles n) g (advancePublished D M n g).1 := by
  rw [advancePublished]
  split_ifs with hz
  · subst hz
    exact Moved.refl _
  · exact slow_moved D M hreplay n g
  · exact addCycles_moved g n
  · exact (addCycles_moved g n).trans (serviceIfDue_moved D M _)

/-- `psx_advance_cycles` publishes what it is given and the whole pending batch. -/
theorem advance_moved (n : ℕ) (g : GuestTime S R) :
    Moved (g.clock.clearBatch.addCycles (g.clock.batch + n)) g (advanceCycles D M n g).1 := by
  have hclear : Moved g.clearBatch.clock g g.clearBatch :=
    ⟨SameAccounts.refl _, .of_fields rfl rfl rfl rfl rfl⟩
  rw [advanceCycles]
  split_ifs with hb hfit
  · have h := published_moved D M hreplay (n + g.clock.batch) g.clearBatch
    rw [Nat.add_comm g.clock.batch]
    exact ⟨h.accounts, hclear.still.trans h.still⟩
  · have hadd := addCycles_moved g.clearBatch g.clock.batch
    have hsettle : Moved (g.clearBatch.addCycles g.clock.batch).clock
        (g.clearBatch.addCycles g.clock.batch)
        (if (g.clearBatch.addCycles g.clock.batch).inDeviceService then
          (g.clearBatch.addCycles g.clock.batch, [])
        else serviceIfDue D M (g.clearBatch.addCycles g.clock.batch)).1 := by
      split_ifs
      · exact Moved.refl _
      · exact serviceIfDue_moved D M _
    have hfirst := hadd.trans hsettle
    have hrest := published_moved D M hreplay n
      (if (g.clearBatch.addCycles g.clock.batch).inDeviceService then
          (g.clearBatch.addCycles g.clock.batch, [])
        else serviceIfDue D M (g.clearBatch.addCycles g.clock.batch)).1
    have hacc := (hfirst.accounts.addCycles n).trans hrest.accounts
    rw [Clock.addCycles, Clock.addCycles, Nat.add_assoc] at hacc
    exact ⟨hacc, hclear.still.trans (hfirst.still.trans hrest.still)⟩
  · have hzero : g.clock.batch = 0 := not_not.mp hb
    have h := published_moved D M hreplay n g
    rw [hzero, Nat.zero_add]
    exact ⟨⟨h.accounts.1, h.accounts.2.1.trans hzero, h.accounts.2.2⟩, h.still⟩

end Charging

/-! ## The counted clock in units of 1/65536 cycle -/

/-- A step that moves the counted clock by `k` units and, while time is frozen, no device. -/
def Credits (k : ℕ) (f : Step (GuestTime S R) (ℕ × ε)) : Prop :=
  ∀ g, Fits g.clock → Fits (f g).1.clock ∧ clockValue (f g).1.clock = clockValue g.clock + k ∧
    Undisturbed g (f g).1

theorem Credits.seq {j k : ℕ} {f h : Step (GuestTime S R) (ℕ × ε)} (hf : Credits j f)
    (hh : Credits k h) : Credits (j + k) (seq f h) := by
  intro g hg
  obtain ⟨hfits, hval, hstill⟩ := hf g hg
  obtain ⟨hfits', hval', hstill'⟩ := hh _ hfits
  refine ⟨hfits', ?_, hstill.trans hstill'⟩
  rw [seq_fst, hval', hval, Nat.add_assoc]

theorem credits_of_moved {f : Step (GuestTime S R) (ℕ × ε)}
    (h : ∀ g, Moved g.clock g (f g).1) : Credits 0 f := fun g hg =>
  ⟨fits_of_accounts (h g).accounts hg, value_of_accounts (h g).accounts, (h g).still⟩

/-- A change of the clock alone. -/
theorem clock_credits {k : ℕ} {g : GuestTime S R} {c : Clock S R} (hfits : Fits c)
    (hval : clockValue c = clockValue g.clock + k) (hdev : c.devices = g.clock.devices)
    (hsync : c.devicesSyncedCycle = g.clock.devicesSyncedCycle)
    (hsample : c.nextCycleSample = g.clock.nextCycleSample) :
    Fits c ∧ clockValue c = clockValue g.clock + k ∧ Undisturbed g { g with clock := c } :=
  ⟨hfits, hval, .of_fields rfl rfl hdev hsync hsample⟩

section Charges
variable (hreplay : M.lsReplayActive = false)
include hreplay

theorem advanceCycles_credits (n : ℕ) : Credits (65536 * n) (advanceCycles D M n) := by
  intro g hg
  have h := advance_moved D M hreplay n g
  exact ⟨fits_of_accounts h.accounts (published_fits hg _),
    by rw [value_of_accounts h.accounts, published_value], h.still⟩

/-- An accumulator taken out of the clock, published, and put back with `rest`. -/
theorem publish_local (prior rest : ℕ) (hrest : rest < 2 ^ 32) (g : GuestTime S R)
    (hg : Fits g.clock) (hp : g.clock.localAcc = some prior) :
    Fits ((advanceCycles D M prior (g.setLocal none)).1.setLocal (some rest)).clock ∧
      clockValue ((advanceCycles D M prior (g.setLocal none)).1.setLocal (some rest)).clock =
        clockValue g.clock + 65536 * rest ∧
      Undisturbed g ((advanceCycles D M prior (g.setLocal none)).1.setLocal (some rest)) := by
  have hout : Fits (g.setLocal none).clock :=
    ⟨hg.batch, by simp [setLocal, Clock.localPending], hg.frac⟩
  obtain ⟨hfits, hval, hstill⟩ := advanceCycles_credits D M hreplay prior _ hout
  have hacc : (advanceCycles D M prior (g.setLocal none)).1.clock.localAcc = none :=
    (advance_moved D M hreplay prior _).accounts.2.2.1
  have htake : Undisturbed g (g.setLocal none) := .of_fields rfl rfl rfl rfl rfl
  generalize (advanceCycles D M prior (g.setLocal none)).1 = h at hfits hval hstill hacc ⊢
  have hback : Undisturbed h (h.setLocal (some rest)) := .of_fields rfl rfl rfl rfl rfl
  refine ⟨⟨hfits.batch, hrest, hfits.frac⟩, ?_, htake.trans (hstill.trans hback)⟩
  have htaken : clockValue (g.setLocal none).clock + 65536 * prior = clockValue g.clock := by
    simp only [clockValue, getCycleCount, setLocal, Clock.localPending, hp, Option.getD_none,
      Option.getD_some]
    ring
  have hput : clockValue (h.setLocal (some rest)).clock = clockValue h.clock + 65536 * rest := by
    simp only [clockValue, getCycleCount, setLocal, Clock.localPending, hacc, Option.getD_none,
      Option.getD_some]
    ring
  rw [hput, hval, htaken]

theorem localPublish_credits : Credits 0 (localPublish D M) := by
  intro g hg
  rw [localPublish]
  cases hl : g.clock.localAcc with
  | none => exact ⟨hg, rfl, .refl g⟩
  | some v =>
    dsimp only
    split_ifs
    · exact ⟨hg, rfl, .refl g⟩
    · exact publish_local D M hreplay v 0 (by norm_num) g hg hl

theorem batchFlush_credits : Credits 0 (batchFlush D M) := by
  apply (localPublish_credits D M hreplay).seq (k := 0)
  intro g hg
  dsimp only
  split_ifs
  · exact ⟨hg, rfl, .refl g⟩
  · have hclear : Fits g.clearBatch.clock := ⟨by simp [clearBatch, Clock.clearBatch], hg.localAcc, hg.frac⟩
    obtain ⟨hfits, hval, hstill⟩ := advanceCycles_credits D M hreplay g.clock.batch _ hclear
    have htake : Undisturbed g g.clearBatch := .of_fields rfl rfl rfl rfl rfl
    refine ⟨hfits, ?_, htake.trans hstill⟩
    rw [hval]
    simp only [clockValue, getCycleCount, clearBatch, Clock.clearBatch, Clock.localPending]
    ring

theorem chargeBatch_credits (n : ℕ) (hn : n < 2 ^ 32) :
    Credits (65536 * n) (chargeBatch D M n) := by
  intro g hg
  have hlimit : SameAccounts g.clock (limitBatch g.clock) ∧
      (limitBatch g.clock).devices = g.clock.devices ∧
      (limitBatch g.clock).devicesSyncedCycle = g.clock.devicesSyncedCycle ∧
      (limitBatch g.clock).nextCycleSample = g.clock.nextCycleSample := by
    rw [limitBatch]
    split_ifs <;> exact ⟨⟨rfl, rfl, rfl, rfl⟩, rfl, rfl, rfl⟩
  obtain ⟨hsame, hdev, hsync, hsample⟩ := hlimit
  have hpub := advanceCycles_credits D M hreplay n
  rw [chargeBatch]
  dsimp only
  split_ifs with hwrap hroom
  · obtain ⟨hfits, hval⟩ := grow_batch hsame hg hn hwrap
    exact clock_credits hfits hval hdev hsync hsample
  · obtain ⟨hfits, hval, hstill⟩ :=
      hpub { g with clock := limitBatch g.clock } (fits_of_accounts hsame hg)
    refine ⟨hfits, by rw [hval, value_of_accounts hsame], ?_⟩
    have hsettled : Undisturbed g { g with clock := limitBatch g.clock } :=
      .of_fields rfl rfl hdev hsync hsample
    exact hsettled.trans hstill
  · exact hpub g hg

theorem chargeLocal_credits (n : ℕ) (hn : n < 2 ^ 32) (prior : ℕ) (g : GuestTime S R)
    (hg : Fits g.clock) (hp : g.clock.localAcc = some prior) :
    Fits (chargeLocal D M n prior g).1.clock ∧
      clockValue (chargeLocal D M n prior g).1.clock = clockValue g.clock + 65536 * n ∧
      Undisturbed g (chargeLocal D M n prior g).1 := by
  rw [chargeLocal]
  split_ifs with hcap hz
  · refine clock_credits ⟨hg.batch, ?_, hg.frac⟩ ?_ rfl rfl rfl
    · simp only [setLocal, Clock.localPending, Option.getD_some]
      omega
    · simp only [setLocal, clockValue, getCycleCount, Clock.localPending, hp, Option.getD_some]
      ring
  · exact publish_local D M hreplay prior n hn g hg hp
  · have hzero : prior = 0 := not_not.mp hz
    refine clock_credits ⟨hg.batch, hn, hg.frac⟩ ?_ rfl rfl rfl
    simp only [clockValue, getCycleCount, setLocal, Clock.localPending, hp, hzero,
      Option.getD_some]
    ring

theorem chargeUnscaled_credits (n : ℕ) (hn : n < 2 ^ 32) :
    Credits (65536 * n) (chargeUnscaled D M n) := by
  intro g hg
  rw [chargeUnscaled]
  by_cases hslow : M.lsReplayActive = true ∨ M.eventStepConservative = true
  · rw [if_pos hslow]
    exact advanceCycles_credits D M hreplay n g hg
  rw [if_neg hslow]
  by_cases hnested : g.inDeviceService = true
  · rw [if_pos hnested]
    refine clock_credits ⟨hg.batch, hg.localAcc, hg.frac⟩ ?_ rfl rfl rfl
    simp only [clockValue, getCycleCount, GuestTime.addCycles, Clock.addCycles,
      Clock.localPending]
    ring
  rw [if_neg hnested]
  cases hl : g.clock.localAcc with
  | some prior => exact chargeLocal_credits D M hreplay n hn prior g hg hl
  | none =>
    dsimp only
    split_ifs with hdefer
    · obtain ⟨hfits, hval⟩ := grow_batch (SameAccounts.refl g.clock) hg hn hdefer.1
      exact clock_credits hfits hval rfl rfl rfl
    · exact chargeBatch_credits D M hreplay n hn g hg

end Charges

/-! ## Scaled charges and the operations of a section -/

section Scaled
variable (hreplay : M.lsReplayActive = false) (hrecip : M.gcsRecip ≤ 65536)
include hreplay hrecip

omit hreplay in
/-- A charge that scales first and then hands the whole cycles to `pay`. -/
theorem scaled_credits (n : ℕ) (hn : n < 2 ^ 32) (pay : ℕ → Step (GuestTime S R) (ℕ × ε))
    (hpay : ∀ m < 2 ^ 32, Credits (65536 * m) (pay m)) :
    Credits (M.gcsRecip * n) fun g =>
      if (scaled M n g).1 = 0 then ((scaled M n g).2, [])
      else pay (scaled M n g).1 (scaled M n g).2 := by
  intro g hg
  obtain ⟨hlt, hfits, hval⟩ := gcsScale_splits M hrecip n hn g.clock hg
  have hstill : Undisturbed g (scaled M n g).2 := .of_fields rfl rfl rfl rfl rfl
  dsimp only
  split_ifs with hz
  · rw [show (gcsScale M n g.clock).1 = 0 from hz, Nat.mul_zero, Nat.add_zero] at hval
    exact ⟨hfits, hval, hstill⟩
  · obtain ⟨hfits', hval', hstill'⟩ := hpay _ hlt (scaled M n g).2 hfits
    refine ⟨hfits', ?_, hstill.trans hstill'⟩
    rw [show (scaled M n g).1 = (gcsScale M n g.clock).1 from rfl, hval', ← hval]
    rfl

theorem cpuCharge_credits (n : ℕ) (hn : n < 2 ^ 32) :
    Credits (M.gcsRecip * n) (cpuCharge D M n) := by
  intro g hg
  rw [cpuCharge]
  split_ifs with hactive
  · exact scaled_credits M hrecip n hn (advanceCycles D M)
      (fun m _ => advanceCycles_credits D M hreplay m) g hg
  · have hone : M.gcsRecip = 65536 := by simpa [Modes.gcsActive] using hactive
    rw [hone]
    exact advanceCycles_credits D M hreplay n g hg

theorem cycCharge_credits (n : ℕ) (hn : n < 2 ^ 32) :
    Credits (M.gcsRecip * n) (cycCharge D M n) := by
  intro g hg
  rw [cycCharge]
  by_cases hz : n = 0
  · subst hz
    exact ⟨hg, rfl, .refl g⟩
  rw [if_neg hz]
  by_cases hactive : M.gcsActive = true
  · rw [if_pos hactive]
    by_cases hbatch : M.gcsBatch = false
    · rw [if_pos hbatch]
      exact cpuCharge_credits D M hreplay hrecip n hn g hg
    rw [if_neg hbatch]
    by_cases hbase : M.lsReplayActive = false ∧ M.eventStepConservative = false ∧
        g.inDeviceService = false
    · simp only [if_pos hbase]
      exact scaled_credits M hrecip n hn (chargeBatch D M)
        (fun m hm => chargeBatch_credits D M hreplay m hm) g hg
    · simp only [if_neg hbase]
      exact scaled_credits M hrecip n hn (chargeUnscaled D M)
        (fun m hm => chargeUnscaled_credits D M hreplay m hm) g hg
  · have hone : M.gcsRecip = 65536 := by simpa [Modes.gcsActive] using hactive
    rw [if_neg hactive, hone]
    exact chargeUnscaled_credits D M hreplay n hn g hg

omit hrecip in
theorem bbDeferEnd_credits : Credits 0 (bbDeferEnd D M) := by
  intro g hg
  rw [bbDeferEnd]
  dsimp only
  have hlower : Moved g.clock g (if g.clock.bbDefer > 0 then
      { g with clock := { g.clock with bbDefer := g.clock.bbDefer - 1 } } else g) := by
    split_ifs <;> exact ⟨⟨rfl, rfl, rfl, rfl⟩, .of_fields rfl rfl rfl rfl rfl⟩
  generalize (if g.clock.bbDefer > 0 then
      { g with clock := { g.clock with bbDefer := g.clock.bbDefer - 1 } } else g) = h at hlower ⊢
  have hfits := fits_of_accounts hlower.accounts hg
  rw [← value_of_accounts hlower.accounts]
  split_ifs
  · obtain ⟨hfits', hval, hstill⟩ := batchFlush_credits D M hreplay h hfits
    exact ⟨hfits', hval, hlower.still.trans hstill⟩
  · exact ⟨hfits, rfl, hlower.still⟩

omit hreplay hrecip in
theorem localPublish_empties (g : GuestTime S R) :
    (localPublish D M g).1.clock.localPending = 0 := by
  rw [localPublish]
  cases hl : g.clock.localAcc with
  | none => simp [Clock.localPending, hl]
  | some v =>
    dsimp only
    split_ifs with hz
    · simp [Clock.localPending, hl, hz]
    · rfl

omit hrecip in
theorem localEnd_credits : Credits 0 (localEnd D M) := by
  intro g hg
  obtain ⟨hfits, hval, hstill⟩ := localPublish_credits D M hreplay g hg
  have hempty := localPublish_empties D M g
  have hclosed : Undisturbed (localPublish D M g).1 ((localPublish D M g).1.setLocal none) :=
    .of_fields rfl rfl rfl rfl rfl
  rw [localEnd, seq_fst]
  refine ⟨⟨hfits.batch, by simp [setLocal, Clock.localPending], hfits.frac⟩, ?_,
    hstill.trans hclosed⟩
  rw [← hval]
  simp only [clockValue, getCycleCount, hempty]
  rfl

omit hrecip in
theorem mmioSync_credits : Credits 0 (devicesMmioSync D M) := by
  apply (batchFlush_credits D M hreplay).seq (k := 0)
  apply credits_of_moved
  intro g
  split_ifs with hfrozen
  · exact freezeTick_moved g
  · exact serviceToNow_moved D M g
  · exact onClock_moved (by simpa using hfrozen) ⟨rfl, rfl, rfl, rfl⟩

end Scaled

def SectionOp.cpuCycles : SectionOp → ℕ
  | .clock op => op.cpuCycles
  | _ => 0

def SectionOp.deviceCycles : SectionOp → ℕ
  | .clock op => op.deviceCycles
  | _ => 0

/-- An accumulator that another one replaces takes its amount with it. -/
def SectionOp.drops : SectionOp → GuestTime S R → ℕ
  | .clock op, g => op.drops g.clock
  | _, _ => 0

def dropped : List SectionOp → GuestTime S R → ℕ
  | [], _ => 0
  | op :: ops, g => op.drops g + dropped ops (op.run D M g).1

/-- What the operations charge, in units of 1/65536 cycle. -/
def chargedUnits (ops : List SectionOp) : ℕ :=
  65536 * (ops.map SectionOp.deviceCycles).sum + M.gcsRecip * (ops.map SectionOp.cpuCycles).sum

section Runs
variable (hreplay : M.lsReplayActive = false) (hrecip : M.gcsRecip ≤ 65536)
include hreplay hrecip

theorem op_moves (op : SectionOp) (g : GuestTime S R) (hg : Fits g.clock) :
    Fits (op.run D M g).1.clock ∧
      clockValue (op.run D M g).1.clock + 65536 * op.drops g =
        clockValue g.clock + 65536 * op.deviceCycles + M.gcsRecip * op.cpuCycles ∧
      Undisturbed g (op.run D M g).1 := by
  cases op with
  | serviceToNow => exact credits_of_moved (serviceToNow_moved D M) g hg
  | mmioSync => exact mmioSync_credits D M hreplay g hg
  | clock op =>
    cases op with
    | cycCharge n => exact cycCharge_credits D M hreplay hrecip n.toNat n.isLt g hg
    | cpuCharge n => exact cpuCharge_credits D M hreplay hrecip n.toNat n.isLt g hg
    | advanceCycles n => exact advanceCycles_credits D M hreplay n.toNat g hg
    | batchFlush => exact batchFlush_credits D M hreplay g hg
    | bbDeferBegin => exact ⟨⟨hg.batch, hg.localAcc, hg.frac⟩, rfl, .of_fields rfl rfl rfl rfl rfl⟩
    | bbDeferEnd => exact bbDeferEnd_credits D M hreplay g hg
    | localBegin =>
      refine ⟨⟨hg.batch, by simp [SectionOp.run, onClock, localBegin, Clock.localPending],
        hg.frac⟩, ?_, .of_fields rfl rfl rfl rfl rfl⟩
      simp only [SectionOp.run, onClock, localBegin, SectionOp.drops, ClockOp.drops,
        SectionOp.deviceCycles, ClockOp.deviceCycles, SectionOp.cpuCycles, ClockOp.cpuCycles,
        clockValue, getCycleCount, Clock.localPending, Option.getD_some]
      ring
    | localEnd => exact localEnd_credits D M hreplay g hg

theorem runSection_moves (ops : List SectionOp) (g : GuestTime S R) (hg : Fits g.clock) :
    Fits (runSection D M ops g).1.clock ∧
      clockValue (runSection D M ops g).1.clock + 65536 * dropped D M ops g =
        clockValue g.clock + chargedUnits M ops ∧
      Undisturbed g (runSection D M ops g).1 := by
  induction ops generalizing g with
  | nil => exact ⟨hg, rfl, .refl g⟩
  | cons op ops ih =>
    obtain ⟨hfits, hval, hstill⟩ := op_moves D M hreplay hrecip op g hg
    obtain ⟨hfits', hval', hstill'⟩ := ih _ hfits
    refine ⟨hfits', ?_, hstill.trans hstill'⟩
    simp only [chargedUnits, runSection, seq_fst, dropped, List.map_cons, List.sum_cons,
      Nat.mul_add] at hval' ⊢
    omega

end Runs

end GuestTime

end PsxRecomp.Cycles
