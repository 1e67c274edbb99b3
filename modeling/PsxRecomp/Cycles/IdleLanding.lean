import Mathlib
import PsxRecomp.Cycles.IdleSkip

/-! Where an idle skip lands. Real execution takes the event at the first boundary of a whole
iteration at or after it. The skip counts iterations over the distance the devices announce, which
for the plain loop is not reduced by the cycles the devices lag behind the clock. -/
namespace PsxRecomp.Cycles
open Transducer
set_option autoImplicit false

/-! ## Boundaries and quanta -/

/-- The boundary `now + k * q` is the first at or after the event, or a cap stops before it; no
boundary at or after the event is jumped over. -/
def LandsOnBoundary (now event q k : ℕ) (caps : List ℕ) : Prop :=
  (∀ j, 0 < j → j < k → now + j * q < event) ∧ (event ≤ now + k * q ∨ k ∈ caps)

/-- The distance used and the true distance end in the same quantum, or a cap stops the skip at
a boundary that is not past the event. -/
def LandingCondition (now event q used : ℕ) (caps : List ℕ) : Prop :=
  (now < event ∧ (used - 1) / q = (event - now - 1) / q) ∨
    ∃ cap ∈ caps, cap ≤ (used - 1) / q + 1 ∧ (cap = 1 ∨ now + (cap - 1) * q < event)

theorem lands_iff (now event : ℕ) {q used k : ℕ} {caps : List ℕ} (hq : 0 < q) (hused : q < used)
    (hk : 0 < k) (hle : k ≤ (used - 1) / q + 1) (hcaps : ∀ cap ∈ caps, k ≤ cap)
    (hmin : k = (used - 1) / q + 1 ∨ k ∈ caps) :
    LandsOnBoundary now event q k caps ↔ LandingCondition now event q used caps := by
  have hone : 1 ≤ (used - 1) / q := (Nat.one_le_div_iff hq).mpr (by omega)
  constructor
  · rintro ⟨hbefore, hend⟩
    by_cases hcap : k ∈ caps
    · refine Or.inr ⟨k, hcap, hle, ?_⟩
      rcases Nat.lt_or_ge 1 k with h | h
      · exact Or.inr (hbefore (k - 1) (by omega) (by omega))
      · exact Or.inl (by omega)
    · have hkeq := hmin.resolve_right hcap
      have hlast := hbefore ((used - 1) / q) hone (by omega)
      have hreach := hend.resolve_right hcap
      rw [hkeq] at hreach
      refine Or.inl ⟨by omega, ?_⟩
      symm
      apply Nat.div_eq_of_lt_le
      · omega
      · omega
  · rintro (⟨hnow, hsame⟩ | ⟨cap, hcap, hcapped, hbefore⟩)
    · have hlow : (used - 1) / q * q ≤ event - now - 1 := by
        rw [hsame]
        exact Nat.div_mul_le_self _ _
      have hhigh : event - now - 1 < ((used - 1) / q + 1) * q := by
        rw [hsame]
        exact (Nat.div_lt_iff_lt_mul hq).mp (Nat.lt_succ_self _)
      refine ⟨fun j _ hj => ?_, ?_⟩
      · have hmul : j * q ≤ (used - 1) / q * q := Nat.mul_le_mul_right q (by omega)
        omega
      · rcases hmin with h | h
        · exact Or.inl (by rw [h]; omega)
        · exact Or.inr h
    · refine ⟨fun j h0 hj => ?_, ?_⟩
      · have hkc := hcaps cap hcap
        rcases hbefore with h | h
        · omega
        · have hmul : j * q ≤ (cap - 1) * q := Nat.mul_le_mul_right q (by omega)
          omega
      · rcases hmin with h | h
        · have hkc := hcaps cap hcap
          have heq : k = cap := by omega
          exact Or.inr (heq ▸ hcap)
        · exact Or.inr h

/-! ## What a performed skip was trained on -/

section Skip
variable {S R ε : Type*} (D : DeviceSet S R ε) (V : IdleView S R) (M : Modes)
variable (env : CheckEnv) (cpu : Registers)

/-- Everything a visit must have matched before the streak lets a skip through. -/
structure Trained (s seen : Detector) : Prop where
  quantum : seen.quantum = s.quantum
  progress : seen.progress = s.progress
  memProgress : seen.memProgress = s.memProgress
  iterEdges : seen.iterEdges = s.edges
  quantum_pos : 0 < s.quantum
  quantum_le : s.quantum ≤ idleQuantumMax
  counter : s.memProgress = true →
    seen.storeAddr = env.lastStoreAddr ∧ seen.storeVal = env.lastStoreVal ∧ 1 < env.lastStoreVal.toInt

theorem counterProgress_counter (s : Detector) (addr val : BitVec 32)
    (h : (counterProgress cpu s addr val).2 = true) : addr ≠ noStore ∧ 1 < val.toInt := by
  rw [counterProgress] at h
  split_ifs at h with haddr hval
  exact ⟨haddr, hval.2.2.1⟩

/-- A streak that is long enough comes from a visit that repeated the last one. -/
theorem rateVisit_repeats (now : ℕ) (s : Detector) (found : Progress × Bool)
    (hstreak : idleStreakMin ≤ (rateVisit cpu now s found).streak) :
    (rateVisit cpu now s found).quantum = s.quantum ∧
      (rateVisit cpu now s found).progress = s.progress ∧
      (rateVisit cpu now s found).memProgress = s.memProgress ∧
      0 < s.quantum ∧ s.quantum ≤ idleQuantumMax ∧ found.2 = s.memProgress := by
  simp only [rateVisit] at hstreak ⊢
  split_ifs at hstreak ⊢ with hquantum hsame hcount
  · exact ⟨rfl, rfl, rfl, hsame.1 ▸ hquantum.2.1, hsame.1 ▸ hquantum.2.2, hsame.2.2.2.1⟩
  · exact ⟨rfl, rfl, rfl, hsame.1 ▸ hquantum.2.1, hsame.1 ▸ hquantum.2.2, hsame.2.2.2.1⟩
  · exact absurd hstreak (by simp [idleStreakMin])
  · exact absurd hstreak (by simp [idleStreakMin, Detector.resetProgress])

theorem compareVisit_trained (now : ℕ) (s : Detector) (addr val : BitVec 32)
    (hstore : addr ≠ noStore → addr = env.lastStoreAddr ∧ val = env.lastStoreVal)
    (hstreak : idleStreakMin ≤ (compareVisit cpu now s addr val).streak) :
    Trained env s (compareVisit cpu now s addr val) := by
  obtain ⟨hq, hp, hm, hpos, hle, hfound⟩ :=
    rateVisit_repeats cpu now s (counterProgress cpu s addr val) hstreak
  refine ⟨hq, hp, hm, rfl, hpos, hle, fun hmem => ?_⟩
  obtain ⟨haddr, hval⟩ := counterProgress_counter cpu s addr val (hfound.trans hmem)
  obtain ⟨ha, hv⟩ := hstore haddr
  exact ⟨ha, hv, hv ▸ hval⟩

theorem idleStoresOk_store (ext : Bool) (s : Detector) (addr val : BitVec 32)
    (h : idleStoresOk env ext s = some (addr, val)) (haddr : addr ≠ noStore) :
    addr = env.lastStoreAddr ∧ val = env.lastStoreVal := by
  rw [idleStoresOk] at h
  split_ifs at h
  · simp only [Option.some.injEq, Prod.mk.injEq] at h
    exact absurd h.1.symm haddr
  · simp only [Option.some.injEq, Prod.mk.injEq] at h
    exact ⟨h.1.symm, h.2.symm⟩

theorem observeVisit_trained (now : ℕ) (ext : Bool) (s : Detector)
    (hstreak : idleStreakMin ≤ (observeVisit env cpu now ext s).streak) :
    Trained env s (observeVisit env cpu now ext s) := by
  have hreset : ¬idleStreakMin ≤ s.resetProgress.streak := by
    simp [idleStreakMin, Detector.resetProgress]
  simp only [observeVisit] at hstreak ⊢
  cases hstores : idleStoresOk env ext s with
  | none =>
    rw [hstores] at hstreak
    exact absurd hstreak hreset
  | some store =>
    obtain ⟨addr, val⟩ := store
    rw [hstores] at hstreak
    dsimp only at hstreak ⊢
    split_ifs at hstreak ⊢
    · have h := compareVisit_trained env cpu now s addr val
        (fun ha => idleStoresOk_store env ext s addr val hstores ha) hstreak
      exact ⟨h.quantum, h.progress, h.memProgress, h.iterEdges, h.quantum_pos, h.quantum_le, h.counter⟩
    · exact absurd hstreak hreset
    · exact absurd hstreak hreset

/-! ## The iterations a skip takes -/

variable {V} in
theorem nearestIdleEvent_le (now seen : ℕ) (d : DeviceState S R) :
    nearestIdleEvent D V now seen d ≤ vblankCyclesPal := by
  have hv : interruptsCyclesToVblank D d ≤ vblankCyclesPal := by
    have := D.vblankCycles_le
    rw [interruptsCyclesToVblank]
    split_ifs <;> omega
  exact (min_le_left _ _).trans hv

/-- The caps a skip obeys, as a list. -/
def skipCaps (s : Detector) : List ℕ := (registerCap cpu s).toList ++ (counterCap s).toList

theorem capped_spec (k : ℕ) (cap : Option ℕ) :
    capped k cap ≤ k ∧ (∀ m ∈ cap.toList, capped k cap ≤ m) ∧
      (capped k cap = k ∨ capped k cap ∈ cap.toList) := by
  cases cap with
  | none => simp [capped]
  | some m =>
    simp only [capped, Option.toList_some, List.mem_singleton, forall_eq]
    split_ifs with h
    · exact ⟨by omega, le_rfl, Or.inr rfl⟩
    · exact ⟨le_rfl, by omega, Or.inl rfl⟩

/-- The iterations are the quanta of the used distance, rounded up, cut to the caps. -/
theorem capped_caps (s : Detector) (n : ℕ) :
    let k := capped (capped n (registerCap cpu s)) (counterCap s)
    k ≤ n ∧ (∀ cap ∈ skipCaps cpu s, k ≤ cap) ∧ (k = n ∨ k ∈ skipCaps cpu s) := by
  obtain ⟨hle, hall, hmin⟩ := capped_spec n (registerCap cpu s)
  obtain ⟨hle', hall', hmin'⟩ := capped_spec (capped n (registerCap cpu s)) (counterCap s)
  refine ⟨hle'.trans hle, fun cap hcap => ?_, ?_⟩
  · rw [skipCaps, List.mem_append] at hcap
    rcases hcap with h | h
    · exact hle'.trans (hall cap h)
    · exact hall' cap h
  · rw [skipCaps, List.mem_append]
    rcases hmin' with h | h
    · rw [h]
      exact hmin.imp id Or.inl
    · exact Or.inr (Or.inr h)

/-- The announced distance, less the lag of the devices for the loop with a counter word. -/
def countedDistance (s : Detector) (c : Clock S R) : ℕ :=
  let dist := devicesCyclesToNextIdleEvent D V c
  if s.memProgress then dist - (c.cycleCount - c.devicesSyncedCycle) else dist

/-- The caps the registers and the last store set, before the check. -/
def loopCaps (s : Detector) : List ℕ :=
  (registerCap cpu s).toList ++ if s.memProgress then [env.lastStoreVal.toNat - 1] else []

theorem usedDistance_eq {s : Detector} {c : Clock S R} {used : ℕ} (hedges : s.iterEdges = 0)
    (h : usedDistance D V s c = some used) : used = countedDistance D V s c := by
  simp only [usedDistance, hedges, ne_eq, not_true_eq_false, false_or] at h
  simp only [countedDistance]
  split_ifs at h ⊢ with hmem hlag hdist
  · have hval := Option.some.inj h
    exact hval.symm
  · have hval := Option.some.inj h
    omega
  · exact (Option.some.inj h).symm

theorem countedDistance_le (s : Detector) (c : Clock S R) :
    countedDistance D V s c ≤ vblankCyclesPal := by
  have hnear : devicesCyclesToNextIdleEvent D V c ≤ vblankCyclesPal := by
    have h := nearestIdleEvent_le D (V := V) c.cycleCount (c.cycleCount + c.pending) c.devices
    have hone : 1 ≤ vblankCyclesPal := by decide
    rw [devicesCyclesToNextIdleEvent]
    split_ifs <;> omega
  simp only [countedDistance]
  split_ifs <;> omega

/-- Without inner edges the division rounds up. -/
theorem iterationsTo_plain (s : Detector) (used : ℕ) (hedges : s.iterEdges = 0)
    (hpos : 0 < s.quantum) (hle : s.quantum ≤ idleQuantumMax) (hlt : s.quantum < used)
    (hused : used ≤ vblankCyclesPal) : iterationsTo s used = (used - 1) / s.quantum + 1 := by
  have hsmall : used + s.quantum - 1 < 2 ^ 32 := by
    simp only [idleQuantumMax, vblankCyclesPal] at hle hused
    omega
  have hsum : used + s.quantum - 1 = used - 1 + s.quantum := by omega
  rw [iterationsTo, if_pos hedges, Nat.mod_eq_of_lt hsmall, hsum, Nat.add_div_right _ hpos]

theorem counterCap_trained {s seen : Detector} (htrained : Trained env s seen) :
    counterCap seen = if s.memProgress then some (env.lastStoreVal.toNat - 1) else none := by
  rw [counterCap, htrained.memProgress]
  split_ifs with hmem hval
  · rw [(htrained.counter hmem).2.1]
  · obtain ⟨-, hstore, hgt⟩ := htrained.counter hmem
    rw [hstore] at hval
    exact absurd hgt hval
  · rfl

theorem skipCaps_trained {s seen : Detector} (htrained : Trained env s seen) :
    skipCaps cpu seen = loopCaps env cpu s := by
  have hreg : registerCap cpu seen = registerCap cpu s := by
    rw [registerCap, registerCap, htrained.progress]
  rw [skipCaps, loopCaps, hreg, counterCap_trained env htrained]
  split_ifs <;> rfl

/-- The iterations of a skip: as many quanta as the counted distance, cut to the caps. -/
structure SkipCount (s : Detector) (c : Clock S R) (k : ℕ) : Prop where
  quantum_pos : 0 < s.quantum
  far : s.quantum < countedDistance D V s c
  pos : 0 < k
  le : k ≤ (countedDistance D V s c - 1) / s.quantum + 1
  caps : ∀ cap ∈ loopCaps env cpu s, k ≤ cap
  reason : k = (countedDistance D V s c - 1) / s.quantum + 1 ∨ k ∈ loopCaps env cpu s

theorem skipIterations_count {s seen : Detector} {c : Clock S R} {k : ℕ}
    (htrained : Trained env s seen) (hedges : s.edges = 0)
    (h : skipIterations cpu D V seen c = some k) : SkipCount D V env cpu s c k := by
  have hiter : seen.iterEdges = 0 := htrained.iterEdges.trans hedges
  have hsame : countedDistance D V seen c = countedDistance D V s c := by
    simp only [countedDistance, htrained.memProgress]
  rw [skipIterations] at h
  split_ifs at h with hstreak hinner
  cases hdist : usedDistance D V seen c with
  | none => simp [hdist] at h
  | some used =>
    have hused := usedDistance_eq D V hiter hdist
    rw [hsame] at hused
    rw [hdist, htrained.quantum] at h
    dsimp only at h
    split_ifs at h with hfar hzero hlong
    have hlt : s.quantum < used := not_le.mp hfar
    have hcount : iterationsTo seen used = (used - 1) / s.quantum + 1 := by
      have hq := htrained.quantum
      rw [iterationsTo_plain seen used hiter (hq ▸ htrained.quantum_pos) (hq ▸ htrained.quantum_le)
        (hq ▸ hlt) (hused ▸ countedDistance_le D V s c), hq]
    obtain ⟨hle, hcaps, hmin⟩ := capped_caps cpu seen (iterationsTo seen used)
    rw [Option.some.inj h, hcount] at hle hmin
    rw [Option.some.inj h] at hcaps hzero
    rw [skipCaps_trained env cpu htrained] at hcaps hmin
    rw [hused] at hlt hle hmin
    exact ⟨htrained.quantum_pos, hlt, Nat.pos_of_ne_zero hzero, hle, hcaps, hmin⟩

/-- What a check that skipped did: it observed a visit, and performed the skip it computed. -/
theorem psxIdleNoteCheck_skipped {s : Detector} {c : Clock S R} {k : ℕ}
    (h : (psxIdleNoteCheck env cpu D V M s c).skipped = some k) :
    M.lsReplayActive = false ∧ ∃ seen, Trained env s seen ∧
      skipIterations cpu D V seen c = some k ∧
      psxIdleNoteCheck env cpu D V M s c = performSkip env cpu D M seen c k := by
  simp only [psxIdleNoteCheck] at h ⊢
  split_ifs at h ⊢ with hoff hsite hleft hcontext hedge
  · cases h
  · cases h
  · cases h
  · cases h
  · cases h
  · cases hk : skipIterations cpu D V (observeVisit env cpu c.cycleCount (extensionOn env s) s) c with
    | none =>
      rw [hk] at h
      cases h
    | some n =>
      rw [hk] at h
      have hn : n = k := Option.some.inj h
      subst hn
      refine ⟨by simpa using (not_or.mp hoff).1, _, ?_, hk, rfl⟩
      apply observeVisit_trained env cpu c.cycleCount (extensionOn env s) s
      rw [skipIterations] at hk
      split_ifs at hk with hstreak
      exact not_lt.mp hstreak

/-! ## Where the skip lands -/

/-- The countdown register and the counter word fall by the iterations skipped, and stay at least
one; no other register and no other word changes. -/
structure CountdownLowered (s : Detector) (k : ℕ) (r : CheckResult S R ε) : Prop where
  register : ∀ i, s.progress = .countdown i →
    (r.cpu.gpr i).toNat + k = (cpu.gpr i).toNat ∧ 1 ≤ (r.cpu.gpr i).toNat
  others : ∀ i, s.progress ≠ .countdown i → r.cpu.gpr i = cpu.gpr i
  counter : s.memProgress = true → ∃ word, r.hostWrite = some (env.lastStoreAddr, word) ∧
    word.toInt + k = env.lastStoreVal.toInt ∧ 1 ≤ word.toInt
  untouched : s.memProgress = false → r.hostWrite = none

/-- A skip of `k` iterations ends where execution would have taken the event. -/
structure LandsAsExecuted (s : Detector) (c : Clock S R) (k : ℕ) : Prop where
  clock : (psxIdleNoteCheck env cpu D V M s c).clock.cycleCount = c.cycleCount + k * s.quantum
  boundary : LandsOnBoundary c.cycleCount (nextIdleEventCycle D V c) s.quantum k (loopCaps env cpu s)
  lowered : CountdownLowered env cpu s k (psxIdleNoteCheck env cpu D V M s c)

theorem performSkip_clock (hreplay : M.lsReplayActive = false) (s : Detector) (c : Clock S R)
    (hbatch : c.batch = 0) (k : ℕ) :
    (performSkip env cpu D M s c k).clock.cycleCount = c.cycleCount + k * s.quantum := by
  have h := (advance_accounts D M hreplay (k * s.quantum) c).1
  rw [hbatch, Nat.zero_add] at h
  exact h

theorem lowered_register {v : BitVec 32} {k : ℕ} (hk : 0 < k)
    (hcap : k ≤ if v.toNat > 1 then v.toNat - 1 else 0) :
    (v - BitVec.ofNat 32 k).toNat + k = v.toNat ∧ 1 ≤ (v - BitVec.ofNat 32 k).toNat := by
  have hlt := v.isLt
  split_ifs at hcap
  · rw [BitVec.toNat_sub, BitVec.toNat_ofNat]
    omega
  · omega

theorem lowered_counter {v : BitVec 32} {k : ℕ} (hv : 1 < v.toInt) (hcap : k ≤ v.toNat - 1) :
    (v - BitVec.ofNat 32 k).toInt + k = v.toInt ∧ 1 ≤ (v - BitVec.ofNat 32 k).toInt := by
  have hlt := v.isLt
  rw [BitVec.toInt_eq_toNat_cond] at hv ⊢
  rw [BitVec.toInt_eq_toNat_cond, BitVec.toNat_sub, BitVec.toNat_ofNat]
  split_ifs at hv ⊢ <;> omega

theorem performSkip_lowered {s seen : Detector} {c : Clock S R} {k : ℕ}
    (htrained : Trained env s seen) (hk : 0 < k) (hcaps : ∀ cap ∈ loopCaps env cpu s, k ≤ cap) :
    CountdownLowered env cpu s k (performSkip env cpu D M seen c k) := by
  have hreg : ∀ cap ∈ registerCap cpu s, k ≤ cap := fun cap hcap => by
    apply hcaps
    rw [loopCaps, List.mem_append, Option.mem_toList]
    exact Or.inl hcap
  refine ⟨fun i hi => ?_, fun i hi => ?_, fun hmem => ?_, fun hmem => ?_⟩
  · have hcap := hreg _ (by rw [registerCap, hi]; rfl)
    simp only [performSkip, lowerRegister, htrained.progress, hi, Function.update_self]
    exact lowered_register hk hcap
  · simp only [performSkip, lowerRegister, htrained.progress]
    cases hp : s.progress with
    | unknown => rfl
    | stable => rfl
    | countdown j =>
      have hne : i ≠ j := fun hij => hi (hij ▸ hp)
      exact Function.update_of_ne hne _ _
  · obtain ⟨haddr, hval, hgt⟩ := htrained.counter hmem
    have hcap : k ≤ env.lastStoreVal.toNat - 1 := by
      apply hcaps
      rw [loopCaps, if_pos hmem]
      exact List.mem_append_right _ (List.mem_singleton.mpr rfl)
    refine ⟨env.lastStoreVal - BitVec.ofNat 32 k, ?_, lowered_counter hgt hcap⟩
    simp only [performSkip, loweredCounter, htrained.memProgress, hmem, if_true, haddr, hval]
  · simp only [performSkip, loweredCounter, htrained.memProgress, hmem, Bool.false_eq_true, if_false]

/-- A skip of a loop with one edge per iteration lands as execution would exactly when the
distance it counted and the true distance end in the same quantum, or a cap stops it early. -/
theorem skip_lands_iff (s : Detector) (c : Clock S R) (k : ℕ) (hbatch : c.batch = 0)
    (hedges : s.edges = 0) (hskip : (psxIdleNoteCheck env cpu D V M s c).skipped = some k) :
    LandsAsExecuted D V M env cpu s c k ↔
      LandingCondition c.cycleCount (nextIdleEventCycle D V c) s.quantum
        (countedDistance D V s c) (loopCaps env cpu s) := by
  obtain ⟨hreplay, seen, htrained, hk, hresult⟩ := psxIdleNoteCheck_skipped D V M env cpu hskip
  have hcount := skipIterations_count D V env cpu htrained hedges hk
  have hlands := lands_iff c.cycleCount (nextIdleEventCycle D V c)
    hcount.quantum_pos hcount.far hcount.pos hcount.le hcount.caps hcount.reason
  constructor
  · intro h
    exact hlands.mp h.boundary
  · intro h
    refine ⟨?_, hlands.mpr h, ?_⟩
    · rw [hresult, performSkip_clock D M env cpu hreplay seen c hbatch, htrained.quantum]
    · rw [hresult]
      exact performSkip_lowered D M env cpu htrained hcount.pos hcount.caps

end Skip

/-! ## Devices that lag behind the clock -/

/-- One timer interrupt, `rest` cycles after the cycle the devices were advanced to. -/
def timerDevices : DeviceSet Unit ℕ Unit where
  sioAdvance := fun _ _ => skip
  cdromAdvance := fun _ _ => skip
  dmaAdvance := fun _ _ => skip
  timersAdvance := fun _ c rest => (rest - c, if 0 < rest ∧ rest ≤ c then [()] else [])
  spuSampleEventService := fun _ _ => skip
  vblankEdge := fun _ => skip
  sioGetSeq := fun _ => 0
  sioCardProtocolActive := fun _ => false
  timersCyclesToIrq := fun _ rest => if rest = 0 then uint32Max else rest
  cdromCyclesToIrq := fun _ _ => uint32Max
  dmaCyclesToInternalEvent := fun _ _ => uint32Max
  sioCyclesToIrq := fun _ _ => uint32Max
  spuSampleEventCyclesToNext := fun _ _ _ => uint32Max
  pal := false

def timerView : IdleView Unit ℕ where
  iMask := fun _ => 0x10
  timersCyclesToIrq := fun _ rest => if rest = 0 then uint32Max else rest
  cdromReadDelay := fun _ _ => uint32Max
  cdromDueCycle := fun _ _ => none
  dmaCyclesToDeliverableIrq := fun _ _ => uint32Max
  sioCyclesToIrq := fun _ _ => uint32Max
  spuSampleEvents := fun _ => false

def pollRegisters : Registers := ⟨fun _ => 0, 0, 0⟩

def pollEnv : CheckEnv where
  checkPc := 0x80010000
  noteSuppress := false
  idleSkipOn := true
  auditedOnly := false
  sites := []
  inException := false
  callBail := false
  preciseMode := false
  lsMode := false
  extOn := false
  storeCount := 7
  mmioCount := 7
  lastStoreAddr := noStore
  lastStoreVal := 0

/-- A poll loop of 100 cycles that was seen at cycle 960. -/
def pollDetector : Detector where
  pc := 0x80010000
  quantum := 100
  streak := 3
  haveSnap := true
  snap := pollRegisters
  progress := .stable
  progressDelta := 0
  lastCycle := 960
  lastStores := 7
  lastMmio := 7
  edges := 0
  iterEdges := 0
  storeAddr := noStore
  storeVal := 0
  memProgress := false

/-- Cycle 1060, with the devices advanced to `synced` and the timer due at cycle 1950. -/
def pollClock (synced : ℕ) : Clock Unit ℕ where
  cycleCount := 1060
  batch := 0
  batchLimit := 0
  bbDefer := 0
  localAcc := none
  gcsFrac := 0
  nextServiceCycle := 1950
  devicesSyncedCycle := synced
  nextCycleSample := 0
  devices := ⟨(), 1950 - synced, 0, 0, 0, false⟩

/-- Sixty cycles of lag: the skip takes ten iterations to cycle 2060, past the boundary 1960. -/
theorem lagging_skip_overshoots :
    (psxIdleNoteCheck pollEnv pollRegisters timerDevices timerView productionModes pollDetector
        (pollClock 1000)).skipped = some 10 ∧
      ¬LandsAsExecuted timerDevices timerView productionModes pollEnv pollRegisters pollDetector
        (pollClock 1000) 10 := by
  refine ⟨by decide, fun h => ?_⟩
  have hjumped := h.boundary.1 9 (by decide) (by decide)
  exact absurd hjumped (by decide)

theorem skip_lands_iff_synced :
    (psxIdleNoteCheck pollEnv pollRegisters timerDevices timerView productionModes pollDetector
        (pollClock 1060)).skipped = some 9 ∧
      LandsAsExecuted timerDevices timerView productionModes pollEnv pollRegisters pollDetector
        (pollClock 1060) 9 := by
  have hskip : (psxIdleNoteCheck pollEnv pollRegisters timerDevices timerView productionModes
      pollDetector (pollClock 1060)).skipped = some 9 := by decide
  have hquantum : LandingCondition 1060 (nextIdleEventCycle timerDevices timerView (pollClock 1060))
      100 (countedDistance timerDevices timerView pollDetector (pollClock 1060))
      (loopCaps pollEnv pollRegisters pollDetector) := Or.inl (by decide)
  exact ⟨hskip, (skip_lands_iff timerDevices timerView productionModes pollEnv pollRegisters
    pollDetector (pollClock 1060) 9 rfl rfl hskip).mpr hquantum⟩

end PsxRecomp.Cycles
