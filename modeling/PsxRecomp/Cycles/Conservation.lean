import Mathlib
import PsxRecomp.Cycles.Charge

/-! Conservation of the guest clock. A charge may be scaled, batched, deferred, collected in a
local accumulator or published at once; measured in units of 1/65536 cycle, with everything that
is still pending, the clock moves by exactly what was charged. -/
namespace PsxRecomp.Cycles
open Transducer
set_option autoImplicit false

variable {S R ε : Type*} (D : DeviceSet S R ε) (M : Modes)

/-! ## Servicing moves no account -/

theorem catchUp_time (pend target : ℕ) (s : Timed S R) (h : s.1 ≤ target) :
    (catchUp D pend target s).1.1 = target := by
  induction hm : target - s.1 using Nat.strongRecOn generalizing s with
  | _ m ih =>
    rw [catchUp]
    split_ifs with hlt
    · have hpos := chunkLength_pos D pend target s
      have hle := chunkLength_le D pend target s hlt
      have htime := advanceChunk_time D pend target s
      refine ih _ ?_ _ ?_ rfl
      · rw [seq_fst, serviceScheduledEvents_time]
        omega
      · rw [seq_fst, serviceScheduledEvents_time]
        omega
    · have hle : target ≤ s.1 := not_lt.mp hlt
      exact Nat.le_antisymm h hle

theorem exactLoop_time (pend cycles : ℕ) (s : Timed S R) :
    (exactLoop D M pend cycles s).1.1 = s.1 + cycles := by
  induction cycles using Nat.strongRecOn generalizing s with
  | _ n ih =>
    rw [exactLoop]
    split_ifs with hlt
    · have hpos := exactStepLength_pos D M n s hlt
      have hle := exactStepLength_le D M n s
      dsimp only
      rw [ih _ (by omega), seq_fst, serviceScheduledEvents_time, advanceDevices_time]
      omega
    · have hz : n = 0 := by omega
      rw [hz]
      rfl

/-- Two clocks that hold the same cycles in the same places. -/
def SameAccounts (c c' : Clock S R) : Prop :=
  c'.cycleCount = c.cycleCount ∧ c'.batch = c.batch ∧ c'.localAcc = c.localAcc ∧
    c'.gcsFrac = c.gcsFrac

theorem SameAccounts.refl (c : Clock S R) : SameAccounts c c := ⟨rfl, rfl, rfl, rfl⟩

theorem SameAccounts.trans {a b c : Clock S R} (h : SameAccounts a b) (h' : SameAccounts b c) :
    SameAccounts a c :=
  ⟨h'.1.trans h.1, h'.2.1.trans h.2.1, h'.2.2.1.trans h.2.2.1, h'.2.2.2.trans h.2.2.2⟩

theorem SameAccounts.addCycles {a b : Clock S R} (h : SameAccounts a b) (n : ℕ) :
    SameAccounts (a.addCycles n) (b.addCycles n) :=
  ⟨by simp only [Clock.addCycles, h.1], h.2⟩

theorem replayGap_accounts (c : Clock S R) : SameAccounts c (replayGap D c).1 := by
  rw [replayGap]
  split_ifs with hlt
  · refine ⟨?_, rfl, rfl, rfl⟩
    simp only [withDevices, seq_fst]
    exact catchUp_time D _ _ _ hlt.le
  · exact SameAccounts.refl c

theorem cycleSampleCheck_accounts (target : ℕ) (c : Clock S R) :
    SameAccounts c (cycleSampleCheck M target c) := by
  rw [cycleSampleCheck]
  split_ifs <;> exact ⟨rfl, rfl, rfl, rfl⟩

theorem service_accounts (c : Clock S R) : SameAccounts c (devicesServiceToNow D M c).1 := by
  rw [devicesServiceToNow]
  split_ifs
  · exact SameAccounts.refl c
  · exact ((replayGap_accounts D c).trans (cycleSampleCheck_accounts M _ _)).trans
      ⟨rfl, rfl, rfl, rfl⟩

theorem serviceIfDue_accounts (c : Clock S R) : SameAccounts c (serviceIfDue D M c).1 := by
  rw [serviceIfDue]
  split_ifs
  · exact service_accounts D M c
  · exact SameAccounts.refl c

theorem exact_accounts (cycles : ℕ) (c : Clock S R) :
    SameAccounts (c.addCycles cycles) (advanceCyclesExact D M cycles c).1 := by
  refine ⟨?_, rfl, rfl, rfl⟩
  simp only [advanceCyclesExact, withDevices, seq_fst, exactLoop_time, serviceScheduledEvents_time]
  rfl

/-! ## The clock in units of 1/65536 cycle -/

/-- The pending amounts fit their words, and the carried fraction is below one cycle. -/
structure Fits (c : Clock S R) : Prop where
  batch : c.batch < 2 ^ 32
  localAcc : c.localPending < 2 ^ 32
  frac : c.gcsFrac < 65536

def clockValue (c : Clock S R) : ℕ := 65536 * getCycleCount c + c.gcsFrac

theorem fits_of_accounts {c c' : Clock S R} (h : SameAccounts c c') (hc : Fits c) : Fits c' := by
  obtain ⟨hb, hl, hf⟩ := hc
  refine ⟨by rw [h.2.1]; exact hb, ?_, by rw [h.2.2.2]; exact hf⟩
  rw [Clock.localPending, h.2.2.1]
  exact hl

theorem value_of_accounts {c c' : Clock S R} (h : SameAccounts c c') :
    clockValue c' = clockValue c := by
  simp only [clockValue, getCycleCount, Clock.localPending, h.1, h.2.1, h.2.2.1, h.2.2.2]

theorem published_value (c : Clock S R) (n : ℕ) :
    clockValue (c.clearBatch.addCycles (c.batch + n)) = clockValue c + 65536 * n := by
  simp only [clockValue, getCycleCount, Clock.clearBatch, Clock.addCycles, Clock.localPending]
  ring

theorem published_fits {c : Clock S R} (hc : Fits c) (n : ℕ) :
    Fits (c.clearBatch.addCycles n) :=
  ⟨by simp [Clock.clearBatch, Clock.addCycles], hc.localAcc, hc.frac⟩

/-- A sum that did not wrap is the sum. -/
theorem grow_batch {c c' : Clock S R} (h : SameAccounts c c') (hc : Fits c) {n : ℕ}
    (hn : n < 2 ^ 32) (hwrap : batchSum c n ≥ c.batch) :
    Fits { c' with batch := batchSum c n } ∧
      clockValue { c' with batch := batchSum c n } = clockValue c + 65536 * n := by
  have hb := hc.batch
  have hsum : batchSum c n = c.batch + n := by
    rw [batchSum] at hwrap ⊢
    omega
  have hc' := fits_of_accounts h hc
  refine ⟨⟨?_, hc'.localAcc, hc'.frac⟩, ?_⟩
  · simp only [batchSum]
    omega
  · have hval := value_of_accounts h
    have hbatch := h.2.1
    simp only [clockValue, getCycleCount, Clock.localPending, hsum] at hval ⊢
    omega

/-! ## Scaled charges -/

theorem gcsRecipFor_le (scale : ℕ) : gcsRecipFor scale ≤ 65536 := by
  rw [gcsRecipFor]
  split_ifs
  · exact le_rfl
  · norm_num
  · rw [Nat.div_le_iff_le_mul_add_pred (by omega)]
    omega

/-- Scaling splits a charge into whole cycles and the carried fraction, and loses neither. -/
theorem gcsScale_splits (hrecip : M.gcsRecip ≤ 65536) (n : ℕ) (hn : n < 2 ^ 32) (c : Clock S R)
    (hc : Fits c) :
    (gcsScale M n c).1 < 2 ^ 32 ∧ Fits (gcsScale M n c).2 ∧
      clockValue (gcsScale M n c).2 + 65536 * (gcsScale M n c).1 =
        clockValue c + M.gcsRecip * n := by
  have hfrac := hc.frac
  have hprod : n * M.gcsRecip ≤ (2 ^ 32 - 1) * 65536 := Nat.mul_le_mul (by omega) hrecip
  have hsmall : (n * M.gcsRecip + c.gcsFrac) / 65536 < 2 ^ 32 := by omega
  refine ⟨Nat.mod_lt _ (by norm_num), ⟨hc.batch, hc.localAcc, Nat.mod_lt _ (by norm_num)⟩, ?_⟩
  simp only [gcsScale, clockValue, getCycleCount, Clock.localPending, Nat.mod_eq_of_lt hsmall]
  rw [Nat.mul_comm M.gcsRecip n]
  omega

/-! ## Sequences of charges -/

inductive ClockOp where
  | cycCharge (cycles : BitVec 32)
  | cpuCharge (cycles : BitVec 32)
  | advanceCycles (cycles : BitVec 32)
  | batchFlush
  | bbDeferBegin
  | bbDeferEnd
  | localBegin
  | localEnd
deriving DecidableEq

def ClockOp.run : ClockOp → Step (Clock S R) (ℕ × ε)
  | .cycCharge cycles => Cycles.cycCharge D M cycles.toNat
  | .cpuCharge cycles => Cycles.cpuCharge D M cycles.toNat
  | .advanceCycles cycles => Cycles.advanceCycles D M cycles.toNat
  | .batchFlush => Cycles.batchFlush D M
  | .bbDeferBegin => Cycles.bbDeferBegin
  | .bbDeferEnd => Cycles.bbDeferEnd D M
  | .localBegin => Cycles.localBegin
  | .localEnd => Cycles.localEnd D M

def runOps : List ClockOp → Step (Clock S R) (ℕ × ε)
  | [] => skip
  | op :: ops => seq (op.run D M) (runOps ops)

def ClockOp.cpuCycles : ClockOp → ℕ
  | .cycCharge cycles => cycles.toNat
  | .cpuCharge cycles => cycles.toNat
  | _ => 0

def ClockOp.deviceCycles : ClockOp → ℕ
  | .advanceCycles cycles => cycles.toNat
  | _ => 0

/-- What an operation forgets: an accumulator that is replaced takes its amount with it. -/
def ClockOp.drops : ClockOp → Clock S R → ℕ
  | .localBegin, c => c.localPending
  | _, _ => 0

def dropped : List ClockOp → Clock S R → ℕ
  | [], _ => 0
  | op :: ops, c => op.drops c + dropped ops (op.run D M c).1

end PsxRecomp.Cycles
