import Mathlib
import PsxRecomp.Cycles.Deadline

/-! Every charge moves the devices by whole reference cycles, so a sequence of charges that ends
in a service leaves the devices where one-cycle stepping leaves them, with the same events at the
same cycles; the conservative path is that stepping. -/
namespace PsxRecomp.Cycles
open Transducer
set_option autoImplicit false

variable {S R ε : Type*} (D : DeviceSet S R ε) (M : Modes)

/-! ## Steps that follow the reference -/

/-- The devices with the cycle up to which they have been advanced. -/
def deviceClock (c : Clock S R) : Timed S R := (c.devicesSyncedCycle, c.devices)

/-- No accumulator is installed and the devices are not ahead; on the conservative path they are
never behind either, and nothing is batched. -/
structure Aligned (c : Clock S R) : Prop where
  null : c.localAcc = none
  behind : c.devicesSyncedCycle ≤ c.cycleCount
  synced : M.eventStepConservative = true → c.devicesSyncedCycle = c.cycleCount ∧ c.batch = 0

/-- A step that moves the devices by whole reference cycles. -/
def Moves (c : Clock S R) (r : Clock S R × List (ℕ × ε)) : Prop :=
  Aligned M r.1 ∧ ∃ n, (deviceClock r.1, r.2) = referenceRun D n (deviceClock c)

def Follows (f : Step (Clock S R) (ℕ × ε)) : Prop := ∀ c, Aligned M c → Moves D M c (f c)

theorem moves_quiet {c c' : Clock S R} (hc : Aligned M c') (h : deviceClock c' = deviceClock c) :
    Moves D M c (c', []) :=
  ⟨hc, 0, by rw [h]; rfl⟩

theorem Moves.then {c : Clock S R} {r : Clock S R × List (ℕ × ε)} (h : Moves D M c r)
    {g : Step (Clock S R) (ℕ × ε)} (hg : Moves D M r.1 (g r.1)) :
    Moves D M c ((g r.1).1, r.2 ++ (g r.1).2) := by
  obtain ⟨-, m, hm⟩ := h
  obtain ⟨hc, n, hn⟩ := hg
  refine ⟨hc, m + n, ?_⟩
  have hm1 := congrArg Prod.fst hm
  have hm2 := congrArg Prod.snd hm
  have hn1 := congrArg Prod.fst hn
  have hn2 := congrArg Prod.snd hn
  dsimp only at hm1 hm2 hn1 hn2
  rw [(referenceRun_flow D).add, hm2, hn1, hn2, hm1]
  rfl

theorem Follows.seq {f g : Step (Clock S R) (ℕ × ε)} (hf : Follows D M f) (hg : Follows D M g) :
    Follows D M (seq f g) := fun c hc => (hf c hc).then D M (hg _ (hf c hc).1)

/-- A change of the clock that the devices do not see. -/
theorem Moves.of_same {b c : Clock S R} {r : Clock S R × List (ℕ × ε)}
    (h : deviceClock b = deviceClock c) (hr : Moves D M b r) : Moves D M c r := by
  obtain ⟨hc, n, hn⟩ := hr
  exact ⟨hc, n, by rw [hn, h]⟩

/-! ## Publishing -/

theorem pending_zero {c : Clock S R} (hb : c.batch = 0) (hl : c.localAcc = none) :
    c.pending = 0 := by
  simp [Clock.pending, Clock.localPending, hb, hl]

theorem replayGap_reference (hD : EventExact D) (c : Clock S R) (hb : c.batch = 0)
    (hl : c.localAcc = none) :
    (deviceClock (replayGap D c).1, (replayGap D c).2) =
      referenceRun D (c.cycleCount - c.devicesSyncedCycle) (deviceClock c) := by
  rw [replayGap]
  split_ifs with hlt
  · have hpend : Clock.pending { c with cycleCount := c.devicesSyncedCycle } = 0 :=
      pending_zero hb hl
    have hserviced := serviced_after_service D 0 (deviceClock c)
    have htime : (serviceScheduledEvents D 0 (deviceClock c)).1.1 = c.devicesSyncedCycle := rfl
    have hloop := catchUp_iterate D hD c.cycleCount _ hserviced
    have hend := catchUp_time D 0 c.cycleCount (serviceScheduledEvents D 0 (deviceClock c)).1
      (by rw [htime]; exact hlt.le)
    rw [htime] at hloop
    have hrun : referenceRun D (c.cycleCount - c.devicesSyncedCycle) (deviceClock c) =
        seq (serviceScheduledEvents D 0) (catchUp D 0 c.cycleCount) (deviceClock c) := by
      rw [referenceRun_pos D (by omega)]
      simp only [seq, hloop]
    rw [hrun]
    simp only [withDevices, hpend]
    exact Prod.ext (Prod.ext hend.symm rfl) rfl
  · have hz : c.cycleCount - c.devicesSyncedCycle = 0 := by omega
    rw [hz]
    rfl

theorem replayGap_synced (c : Clock S R) (h : c.devicesSyncedCycle ≤ c.cycleCount) :
    (replayGap D c).1.devicesSyncedCycle = (replayGap D c).1.cycleCount := by
  rw [(replayGap_accounts D c).1, replayGap]
  split_ifs with hlt
  · rfl
  · exact le_antisymm h (not_lt.mp hlt)

theorem exact_moves (hcons : M.eventStepConservative = true) (cycles : ℕ) (hpos : 0 < cycles)
    (c : Clock S R) (hb : c.batch = 0) (hc : Aligned M c) :
    Moves D M c (advanceCyclesExact D M cycles c) := by
  have hpend : c.pending = 0 := pending_zero hb hc.null
  have hacc := exact_accounts D M cycles c
  have hstart : (c.cycleCount, c.devices) = deviceClock c := by
    rw [deviceClock, (hc.synced hcons).1]
  refine ⟨⟨hacc.2.2.1.trans hc.null, le_rfl, fun _ => ⟨rfl, hacc.2.1.trans hb⟩⟩, cycles, ?_⟩
  rw [referenceRun_pos D hpos]
  simp only [advanceCyclesExact, withDevices, hpend, hstart, seq, exactLoop_iterate D M hcons]
  rfl

theorem localEnd_follows : Follows D M (localEnd D M) := by
  intro c hc
  have hpublish : localPublish D M c = (c, []) := by rw [localPublish, hc.null]
  rw [localEnd, seq_quiet _ _ hpublish]
  exact moves_quiet D M ⟨rfl, hc.behind, hc.synced⟩ rfl

section Charging
variable (hD : EventExact D) (hreplay : M.lsReplayActive = false)
  (hservice : M.inDeviceService = false)
include hD hservice

theorem service_moves (c : Clock S R) (hb : c.batch = 0) (hl : c.localAcc = none)
    (hle : c.devicesSyncedCycle ≤ c.cycleCount) :
    Moves D M c (devicesServiceToNow D M c) ∧
      (devicesServiceToNow D M c).1.devicesSyncedCycle = c.cycleCount := by
  have hacc := service_accounts D M c
  have hsync := replayGap_synced D c hle
  have hcount := (replayGap_accounts D c).1
  have hsample : ∀ target (c : Clock S R), deviceClock (cycleSampleCheck M target c) = deviceClock c := by
    intro target c
    rw [cycleSampleCheck]
    split_ifs <;> rfl
  have hclock : deviceClock (devicesServiceToNow D M c).1 = deviceClock (replayGap D c).1 := by
    simp only [devicesServiceToNow, hservice, Bool.false_eq_true, if_false]
    exact hsample c.cycleCount (replayGap D c).1
  have hevents : (devicesServiceToNow D M c).2 = (replayGap D c).2 := by
    simp only [devicesServiceToNow, hservice, Bool.false_eq_true, if_false]
  have hsynced : (devicesServiceToNow D M c).1.devicesSyncedCycle = c.cycleCount := by
    have h := congrArg Prod.fst hclock
    exact h.trans (hsync.trans hcount)
  refine ⟨⟨⟨hacc.2.2.1.trans hl, ?_, fun _ => ⟨?_, hacc.2.1.trans hb⟩⟩,
    c.cycleCount - c.devicesSyncedCycle, ?_⟩, hsynced⟩
  · rw [hsynced, hacc.1]
  · rw [hsynced, hacc.1]
  · rw [hclock, hevents]
    exact replayGap_reference D hD c hb hl

theorem serviceIfDue_moves (hfast : M.eventStepConservative = false) (c : Clock S R)
    (hb : c.batch = 0) (hl : c.localAcc = none) (hle : c.devicesSyncedCycle ≤ c.cycleCount) :
    Moves D M c (serviceIfDue D M c) := by
  rw [serviceIfDue]
  split_ifs
  · exact (service_moves D M hD hservice c hb hl hle).1
  · exact moves_quiet D M ⟨hl, hle, fun h => absurd h (by simp [hfast])⟩ rfl

include hreplay

theorem published_moves (cycles : ℕ) (c : Clock S R) (hb : c.batch = 0) (hc : Aligned M c) :
    Moves D M c (advancePublished D M cycles c) := by
  simp only [advancePublished, advanceCyclesSlow, hreplay, hservice, Bool.false_eq_true, if_false,
    false_or]
  split_ifs with hz hcons
  · exact moves_quiet D M hc rfl
  · exact exact_moves D M hcons cycles (Nat.pos_of_ne_zero hz) c hb hc
  · have hfast : M.eventStepConservative = false := by simpa using hcons
    have hle : c.devicesSyncedCycle ≤ c.cycleCount + cycles := by
      have := hc.behind
      omega
    exact (serviceIfDue_moves D M hD hservice hfast (c.addCycles cycles) hb hc.null
      hle).of_same D M rfl

theorem advanceCycles_follows (cycles : ℕ) : Follows D M (advanceCycles D M cycles) := by
  intro c hc
  have hclear : Aligned M c.clearBatch := ⟨hc.null, hc.behind, fun h => ⟨(hc.synced h).1, rfl⟩⟩
  simp only [advanceCycles, hservice, Bool.false_eq_true, if_false]
  split_ifs with hb hfit
  · exact (published_moves D M hD hreplay hservice _ c.clearBatch rfl hclear).of_same D M rfl
  · -- the batch is published first; on the conservative path there is none
    have hfast : M.eventStepConservative = false := by
      by_contra h
      exact hb (hc.synced (by simpa using h)).2
    have hle : c.devicesSyncedCycle ≤ c.cycleCount + c.batch := by
      have := hc.behind
      omega
    have hfirst := serviceIfDue_moves D M hD hservice hfast
      (c.clearBatch.addCycles c.batch) rfl hc.null hle
    have hbatch : (serviceIfDue D M (c.clearBatch.addCycles c.batch)).1.batch = 0 :=
      (serviceIfDue_accounts D M _).2.1
    have hsecond := published_moves D M hD hreplay hservice cycles _ hbatch hfirst.1
    exact (hfirst.then D M hsecond).of_same D M rfl
  · exact published_moves D M hD hreplay hservice cycles c (not_not.mp hb) hc

/-! ## Charging -/

theorem cpuCharge_follows (cycles : ℕ) : Follows D M (cpuCharge D M cycles) := by
  intro c hc
  have hscaled : Aligned M (gcsScale M cycles c).2 := ⟨hc.null, hc.behind, hc.synced⟩
  simp only [cpuCharge]
  split_ifs
  · exact moves_quiet D M hscaled rfl
  · exact (advanceCycles_follows D M hD hreplay hservice _ _ hscaled).of_same D M rfl
  · exact advanceCycles_follows D M hD hreplay hservice _ c hc

section Fast
variable (hfast : M.eventStepConservative = false)
include hfast

theorem chargeBatch_follows (cycles : ℕ) : Follows D M (chargeBatch D M cycles) := by
  intro c hc
  have hslow : ∀ {p : Prop}, M.eventStepConservative = true → p := fun h => absurd h (by simp [hfast])
  have hlimit : Aligned M (limitBatch c) := by
    rw [limitBatch]
    split_ifs
    · exact ⟨hc.null, hc.behind, hslow⟩
    · exact hc
  have hsame : deviceClock (limitBatch c) = deviceClock c := by
    rw [limitBatch]
    split_ifs <;> rfl
  simp only [chargeBatch]
  split_ifs
  · exact moves_quiet D M ⟨hlimit.null, hlimit.behind, hslow⟩ hsame
  · exact (advanceCycles_follows D M hD hreplay hservice _ _ hlimit).of_same D M hsame
  · exact advanceCycles_follows D M hD hreplay hservice _ c hc

end Fast

theorem chargeUnscaled_follows (cycles : ℕ) : Follows D M (chargeUnscaled D M cycles) := by
  intro c hc
  simp only [chargeUnscaled, hreplay, hservice, hc.null, Bool.false_eq_true, if_false, false_or]
  split_ifs with hcons hdefer
  · exact advanceCycles_follows D M hD hreplay hservice _ c hc
  · exact moves_quiet D M ⟨rfl, hc.behind, fun h => absurd h hcons⟩ rfl
  · have hfast : M.eventStepConservative = false := by simpa using hcons
    exact chargeBatch_follows D M hD hreplay hservice hfast _ c hc

theorem cycCharge_follows (cycles : ℕ) : Follows D M (cycCharge D M cycles) := by
  intro c hc
  have hscaled : Aligned M (gcsScale M cycles c).2 := ⟨hc.null, hc.behind, hc.synced⟩
  simp only [cycCharge]
  split_ifs with _ _ _ _ hfast
  · exact moves_quiet D M hc rfl
  · exact cpuCharge_follows D M hD hreplay hservice _ c hc
  · exact moves_quiet D M hscaled rfl
  · exact (chargeBatch_follows D M hD hreplay hservice hfast.2.1 _ _ hscaled).of_same D M rfl
  · exact (chargeUnscaled_follows D M hD hreplay hservice _ _ hscaled).of_same D M rfl
  · exact chargeUnscaled_follows D M hD hreplay hservice _ c hc

theorem batchFlush_follows : Follows D M (batchFlush D M) := by
  intro c hc
  have hpublish : localPublish D M c = (c, []) := by rw [localPublish, hc.null]
  have hclear : Aligned M c.clearBatch := ⟨hc.null, hc.behind, fun h => ⟨(hc.synced h).1, rfl⟩⟩
  rw [batchFlush, seq_quiet _ _ hpublish]
  split_ifs
  · exact moves_quiet D M hc rfl
  · exact (advanceCycles_follows D M hD hreplay hservice _ _ hclear).of_same D M rfl

theorem bbDeferEnd_follows : Follows D M (bbDeferEnd D M) := by
  intro c hc
  have hkeep : Aligned M (if c.bbDefer > 0 then { c with bbDefer := c.bbDefer - 1 } else c) := by
    split_ifs <;> exact ⟨hc.null, hc.behind, hc.synced⟩
  have hsame : deviceClock (if c.bbDefer > 0 then { c with bbDefer := c.bbDefer - 1 } else c) =
      deviceClock c := by
    split_ifs <;> rfl
  simp only [bbDeferEnd]
  generalize (if c.bbDefer > 0 then { c with bbDefer := c.bbDefer - 1 } else c) = c' at hkeep hsame ⊢
  split_ifs
  · exact (batchFlush_follows D M hD hreplay hservice c' hkeep).of_same D M hsame
  · exact moves_quiet D M hkeep hsame

theorem op_follows (op : ClockOp) (hop : op ≠ .localBegin) : Follows D M (op.run D M) := by
  cases op with
  | cycCharge n => exact cycCharge_follows D M hD hreplay hservice _
  | cpuCharge n => exact cpuCharge_follows D M hD hreplay hservice _
  | advanceCycles n => exact advanceCycles_follows D M hD hreplay hservice _
  | batchFlush => exact batchFlush_follows D M hD hreplay hservice
  | bbDeferBegin => exact fun c hc => moves_quiet D M ⟨hc.null, hc.behind, hc.synced⟩ rfl
  | bbDeferEnd => exact bbDeferEnd_follows D M hD hreplay hservice
  | localBegin => exact absurd rfl hop
  | localEnd => exact localEnd_follows D M

theorem runOps_follows (ops : List ClockOp) (hops : .localBegin ∉ ops) :
    Follows D M (runOps D M ops) := by
  induction ops with
  | nil => exact fun c hc => moves_quiet D M hc rfl
  | cons op ops ih =>
    rw [List.mem_cons, not_or] at hops
    exact (op_follows D M hD hreplay hservice op (Ne.symm hops.1)).seq D M (ih hops.2)

end Charging

/-! ## Charges, then a service -/

/-- Publish what is pending and bring the devices to the clock. -/
def settle : Step (Clock S R) (ℕ × ε) := seq (batchFlush D M) (devicesServiceToNow D M)

def chargeAndSettle (ops : List ClockOp) : Step (Clock S R) (ℕ × ε) :=
  seq (runOps D M ops) (settle D M)

theorem batchFlush_empties (hreplay : M.lsReplayActive = false) (c : Clock S R) :
    (batchFlush D M c).1.batch = 0 := by
  rw [batchFlush, seq_fst]
  split_ifs with hb
  · exact hb
  · exact (advance_accounts D M hreplay _ _).2.1

theorem settled_reference (hD : EventExact D) (hreplay : M.lsReplayActive = false)
    (hservice : M.inDeviceService = false) (ops : List ClockOp) (hops : .localBegin ∉ ops)
    (c : Clock S R) (hc : Aligned M c) :
    (chargeAndSettle D M ops c).1.devicesSyncedCycle = (chargeAndSettle D M ops c).1.cycleCount ∧
      (deviceClock (chargeAndSettle D M ops c).1, (chargeAndSettle D M ops c).2) =
        referenceRun D ((chargeAndSettle D M ops c).1.cycleCount - c.devicesSyncedCycle)
          (deviceClock c) := by
  have hcharges := (runOps_follows D M hD hreplay hservice ops hops).seq D M
    (batchFlush_follows D M hD hreplay hservice) c hc
  have hbatch : (seq (runOps D M ops) (batchFlush D M) c).1.batch = 0 :=
    batchFlush_empties D M hreplay _
  obtain ⟨hmoves, hsync⟩ := service_moves D M hD hservice _ hbatch hcharges.1.null hcharges.1.behind
  have hcount := (service_accounts D M (seq (runOps D M ops) (batchFlush D M) c).1).1
  have hall : Moves D M c (chargeAndSettle D M ops c) := by
    rw [chargeAndSettle, settle, ← seq_assoc]
    exact hcharges.then D M hmoves
  have hsynced : (chargeAndSettle D M ops c).1.devicesSyncedCycle =
      (chargeAndSettle D M ops c).1.cycleCount := by
    rw [chargeAndSettle, settle, ← seq_assoc]
    exact hsync.trans hcount.symm
  obtain ⟨-, n, hn⟩ := hall
  have htime : (chargeAndSettle D M ops c).1.devicesSyncedCycle = c.devicesSyncedCycle + n := by
    have h := congrArg (fun r => r.1.1) hn
    rw [referenceRun_time] at h
    exact h
  refine ⟨hsynced, ?_⟩
  have hlen : (chargeAndSettle D M ops c).1.cycleCount - c.devicesSyncedCycle = n := by omega
  rw [hlen]
  exact hn

theorem runOps_null (hreplay : M.lsReplayActive = false) (ops : List ClockOp)
    (hops : .localBegin ∉ ops) :
    KeepsNull (runOps (S := S) D M ops) ∧ ∀ c, dropped (S := S) D M ops c = 0 := by
  induction ops with
  | nil => exact ⟨fun c hc => hc, fun _ => rfl⟩
  | cons op ops ih =>
    rw [List.mem_cons, not_or] at hops
    obtain ⟨hnull, hdrop⟩ := ih hops.2
    refine ⟨fun c hc => ?_, fun c => ?_⟩
    · exact hnull _ (op_null D M hreplay op (Ne.symm hops.1) c hc)
    · rw [dropped, hdrop, drops_other op c (Ne.symm hops.1)]

/-- What the clock shows after a settled sequence of charges. -/
theorem settled_count (hreplay : M.lsReplayActive = false) (hrecip : M.gcsRecip ≤ 65536)
    (ops : List ClockOp) (hops : .localBegin ∉ ops) (c : Clock S R) (hc : Fits c)
    (hnull : c.localAcc = none) :
    (chargeAndSettle D M ops c).1.cycleCount =
      getCycleCount c + (ops.map ClockOp.deviceCycles).sum +
        (c.gcsFrac + M.gcsRecip * (ops.map ClockOp.cpuCycles).sum) / 65536 := by
  obtain ⟨hkeep, hdrop⟩ := runOps_null D M hreplay ops hops
  obtain ⟨hfits, hval⟩ := runOps_value D M hreplay hrecip ops c hc
  obtain ⟨hfits', hval'⟩ := batchFlush_value D M hreplay hrecip _ hfits
  have hbatch := batchFlush_empties D M hreplay (runOps D M ops c).1
  have hlocal : (batchFlush D M (runOps D M ops c).1).1.localPending = 0 := by
    rw [Clock.localPending, batchFlush_null D M hreplay _ (hkeep c hnull)]
    rfl
  have hcount : (chargeAndSettle D M ops c).1.cycleCount =
      (batchFlush D M (runOps D M ops c).1).1.cycleCount :=
    (service_accounts D M (batchFlush D M (runOps D M ops c).1).1).1
  have hfrac := hfits'.frac
  rw [hcount]
  simp only [clockValue, hdrop c] at hval hval'
  simp only [getCycleCount, hbatch, hlocal] at hval' ⊢
  simp only [getCycleCount] at hval
  omega

/-! ## Deadline servicing refines one-cycle stepping -/

def Modes.conservative : Modes := { M with eventStepConservative := true }

/-- Any sequence of charges, then a service: the devices and their events, with the cycles they
happen at, are those of one-cycle stepping up to the same target; from a synced start the
conservative path reaches the same target, devices and events. -/
theorem deadline_refines (hD : EventExact D) (hreplay : M.lsReplayActive = false)
    (hservice : M.inDeviceService = false) (hfast : M.eventStepConservative = false)
    (scale : ℕ) (hscale : M.gcsRecip = gcsRecipFor scale) (ops : List ClockOp)
    (hops : .localBegin ∉ ops) (c : Clock S R) (hc : Fits c) (hnull : c.localAcc = none)
    (hbehind : c.devicesSyncedCycle ≤ c.cycleCount) :
    (deviceClock (chargeAndSettle D M ops c).1, (chargeAndSettle D M ops c).2) =
        referenceRun D ((chargeAndSettle D M ops c).1.cycleCount - c.devicesSyncedCycle)
          (deviceClock c) ∧
      (chargeAndSettle D M ops c).1.devicesSyncedCycle =
        (chargeAndSettle D M ops c).1.cycleCount ∧
      (c.devicesSyncedCycle = c.cycleCount → c.batch = 0 →
        (chargeAndSettle D M.conservative ops c).1.cycleCount =
            (chargeAndSettle D M ops c).1.cycleCount ∧
          (chargeAndSettle D M.conservative ops c).1.devices =
            (chargeAndSettle D M ops c).1.devices ∧
          (chargeAndSettle D M.conservative ops c).2 = (chargeAndSettle D M ops c).2) := by
  have hrecip : M.gcsRecip ≤ 65536 := hscale ▸ gcsRecipFor_le scale
  have hcount := settled_count D M hreplay hrecip ops hops c hc hnull
  obtain ⟨hsync, hrun⟩ := settled_reference D M hD hreplay hservice ops hops c
    ⟨hnull, hbehind, fun h => absurd h (by simp [hfast])⟩
  refine ⟨hrun, hsync, fun hstart hempty => ?_⟩
  have hcount' := settled_count D M.conservative hreplay hrecip ops hops c hc hnull
  obtain ⟨-, hrun'⟩ := settled_reference D M.conservative hD hreplay hservice ops hops c
    ⟨hnull, hbehind, fun _ => ⟨hstart, hempty⟩⟩
  have hsame : (chargeAndSettle D M.conservative ops c).1.cycleCount =
      (chargeAndSettle D M ops c).1.cycleCount := hcount'.trans hcount.symm
  rw [hsame, ← hrun] at hrun'
  exact ⟨hsame, congrArg (fun r => r.1.2) hrun', congrArg (fun r => r.2) hrun'⟩

/-! ## Devices that only pace the VBlank -/

/-- Idle devices whose VBlank edge is an event. -/
def pacingDevices : DeviceSet Unit Unit Unit :=
  { idleDevices with vblankEdge := fun _ => fun r => (r, [()]) }

theorem pacing_period : pacingDevices.vblankCycles = 564480 := rfl

/-- The device state after `n` cycles without an edge. -/
def paced (n : ℕ) (s : Timed Unit Unit) : Timed Unit Unit :=
  (s.1 + n, { s.2 with cyclesSinceVblank := (s.2.cyclesSinceVblank + n) % 2 ^ 32 })

theorem pacing_advance (s : Timed Unit Unit) (n : ℕ) (hs : Serviced pacingDevices 0 s) :
    advanceDevices pacingDevices 0 n s =
      if (paced n s).2.inException then (paced n s, [])
      else (((paced n s).1, (fireDueEdges pacingDevices (s.1 + n) 0 (paced n s).2).1),
        (fireDueEdges pacingDevices (s.1 + n) 0 (paced n s).2).2) := by
  have hseen : pacingDevices.sioGetSeq (paced n s).2.sio = (paced n s).2.lastSioSeqSeen := hs.1
  have hnote : noteSioProgressCycle pacingDevices (s.1 + n) 0 (paced n s).2 = (paced n s).2 := by
    rw [noteSioProgressCycle, if_neg (not_not.mpr hseen)]
  have hvisit : visitDevices pacingDevices (s.1 + n) 0 n s.2 =
      interruptsServiceScheduledEvents pacingDevices (s.1 + n) 0 (paced n s).2 := by
    simp only [visitDevices, seq, onSio, onRest, pacingDevices, idleDevices, skip_apply,
      List.map_nil, List.nil_append, List.append_nil]
    rfl
  rw [advanceDevices, hvisit, interruptsServiceScheduledEvents, hnote]
  split_ifs <;> rfl

/-- Room for `n` more cycles before the next edge, or an exception that holds the edges back. -/
def Room (n : ℕ) (s : Timed Unit Unit) : Prop :=
  s.2.inException = true ∨ s.2.cyclesSinceVblank + n < 564480

theorem room_of_serviced {s : Timed Unit Unit} (hs : Serviced pacingDevices 0 s) : Room 0 s := by
  rcases hs.2 with h | h | h
  · exact Or.inl h
  · rw [vblankEdgeDue, decide_eq_false_iff_not, pacing_period] at h
    exact Or.inr (not_le.mp h)
  · cases h

theorem pacing_quiet (s : Timed Unit Unit) (n : ℕ) (hs : Serviced pacingDevices 0 s)
    (hroom : Room n s) : advanceDevices pacingDevices 0 n s = (paced n s, []) := by
  rw [pacing_advance s n hs]
  split_ifs with hex
  · rfl
  · have hlt := hroom.resolve_left hex
    have hmod : (paced n s).2.cyclesSinceVblank = s.2.cyclesSinceVblank + n :=
      Nat.mod_eq_of_lt (by omega)
    have hdue : vblankEdgeDue pacingDevices (paced n s).2 = false := by
      rw [vblankEdgeDue, decide_eq_false_iff_not, hmod, pacing_period]
      omega
    rw [fireDueEdges_idle pacingDevices _ 0 _ (Or.inl hdue)]

theorem paced_paced (m n : ℕ) (s : Timed Unit Unit) : paced n (paced m s) = paced (m + n) s := by
  simp only [paced, Nat.mod_add_mod, Nat.add_assoc]

theorem paced_serviced {s : Timed Unit Unit} {n : ℕ} (hs : Serviced pacingDevices 0 s)
    (hroom : Room n s) : Serviced pacingDevices 0 (paced n s) := by
  have h := serviced_after_advance pacingDevices 0 n s
  rwa [pacing_quiet s n hs hroom] at h

theorem paced_room {s : Timed Unit Unit} {m n : ℕ} (hroom : Room (m + n) s) :
    Room n (paced m s) := by
  rcases hroom with h | h
  · exact Or.inl h
  · refine Or.inr ?_
    simp only [paced]
    rw [Nat.mod_eq_of_lt (by omega)]
    omega

theorem room_le {s : Timed Unit Unit} {m n : ℕ} (hroom : Room n s) (h : m ≤ n) : Room m s :=
  hroom.imp id fun hlt => by omega

theorem pacing_iterate (s : Timed Unit Unit) (n : ℕ) (hs : Serviced pacingDevices 0 s)
    (hroom : Room (n + 1) s) :
    iterate (advanceDevices pacingDevices 0 1) (n + 1) s = (paced (n + 1) s, []) := by
  induction n with
  | zero => rw [Nat.zero_add, iterate_one, pacing_quiet s 1 hs hroom]
  | succ n ih =>
    have hn := room_le hroom (Nat.le_succ (n + 1))
    rw [iterate_succ_last, seq_quiet _ _ (ih hn),
      pacing_quiet _ 1 (paced_serviced hs hn) (paced_room hroom), paced_paced]

/-- The cycle that reaches the edge emits it. -/
theorem pacing_edge (s : Timed Unit Unit) (hs : Serviced pacingDevices 0 s)
    (hex : s.2.inException = false) (hcsv : s.2.cyclesSinceVblank + 1 = 564480) :
    (advanceDevices pacingDevices 0 1 s).2 ≠ [] := by
  have hmod : (paced 1 s).2.cyclesSinceVblank = 564480 := by
    have h := Nat.mod_eq_of_lt (show s.2.cyclesSinceVblank + 1 < 2 ^ 32 by omega)
    exact h.trans hcsv
  have hdue : vblankEdgeDue pacingDevices (paced 1 s).2 = true := by
    rw [vblankEdgeDue, decide_eq_true_eq, hmod, pacing_period]
  have hplay : ¬(paced 1 s).2.inException = true := by
    rw [show (paced 1 s).2.inException = s.2.inException from rfl, hex]
    decide
  have hfire : (fireVblankEdge pacingDevices (s.1 + 1) (paced 1 s).2).2 = [(s.1 + 1, ())] := rfl
  rw [pacing_advance s 1 hs, if_neg hplay]
  intro hnil
  rw [fireDueEdges_due pacingDevices _ 0 _ hdue rfl, hfire, List.append_eq_nil_iff] at hnil
  exact List.cons_ne_nil _ _ hnil.1

theorem room_of_quiet (s : Timed Unit Unit) (n : ℕ) (hs : Serviced pacingDevices 0 s)
    (hq : QuietFor (advanceDevices pacingDevices 0 1) n s) : Room n s := by
  induction n with
  | zero => exact room_of_serviced hs
  | succ n ih =>
    have hn := ih hq.before
    rcases hn with hex | hlt
    · exact Or.inl hex
    cases hex : s.2.inException with
    | true => exact Or.inl hex
    | false =>
      refine Or.inr ?_
      by_contra hge
      have hedge : s.2.cyclesSinceVblank + n + 1 = 564480 := by omega
      rw [QuietFor, iterate_succ_last, seq_snd, List.append_eq_nil_iff] at hq
      cases n with
      | zero => exact pacing_edge s hs hex hedge hq.2
      | succ k =>
        have hroom : Room (k + 1) s := Or.inr hlt
        have hmod : (paced (k + 1) s).2.cyclesSinceVblank = s.2.cyclesSinceVblank + (k + 1) :=
          Nat.mod_eq_of_lt (by omega)
        have hquiet := hq.2
        rw [pacing_iterate s k hs hroom] at hquiet
        exact pacing_edge _ (paced_serviced hs hroom) hex (by rw [hmod]; exact hedge) hquiet

theorem pacing_exact : EventExact pacingDevices where
  additive := by
    intro s m n hs _ _ hq
    have hroom := room_of_quiet s (m + n) hs hq
    have hm := room_le hroom (Nat.le_add_right m n)
    rw [pacing_quiet s (m + n) hs hroom, seq_quiet _ _ (pacing_quiet s m hs hm),
      pacing_quiet _ n (paced_serviced hs hm) (paced_room hroom), paced_paced]
  neverLate := by
    intro s n hs hn
    have hroom : Room n s := by
      cases hex : s.2.inException with
      | true => exact Or.inl hex
      | false =>
        have hcsv := (room_of_serviced hs).resolve_left (by simp [hex])
        have hvblank : n < interruptsCyclesToVblank pacingDevices s.2 :=
          lt_of_lt_of_le hn (min_le_left _ _)
        rw [interruptsCyclesToVblank, pacing_period, if_neg (by omega)] at hvblank
        exact Or.inr (by omega)
    cases n with
    | zero => rfl
    | succ n =>
      rw [QuietFor, pacing_iterate s n hs hroom]

/-- Charges that run over one VBlank edge in a single jump. -/
def overOneFrame : List ClockOp :=
  [.bbDeferBegin, .cycCharge 400000, .cycCharge 200000, .bbDeferEnd, .advanceCycles 7]

theorem deadline_refines_overOneFrame :
    (deviceClock (chargeAndSettle pacingDevices productionModes overOneFrame coldClock).1,
        (chargeAndSettle pacingDevices productionModes overOneFrame coldClock).2) =
      referenceRun pacingDevices
        ((chargeAndSettle pacingDevices productionModes overOneFrame coldClock).1.cycleCount - 0)
        (0, coldClock.devices) := by
  have hfits : Fits coldClock := ⟨by decide, by decide, by decide⟩
  exact (deadline_refines pacingDevices productionModes pacing_exact rfl rfl rfl 1 rfl overOneFrame
    (by decide) coldClock hfits rfl (le_refl 0)).1

end PsxRecomp.Cycles
