import Mathlib

/-! The rate machinery of the sound processor: the envelope of a voice and the sweep of a volume
register, each moved once for every sample. -/
namespace PsxRecomp.Spu
set_option autoImplicit false

abbrev Half := BitVec 16

/-! ## Rates -/

/-- The step of a rate before the logarithmic modes look at the level. -/
def baseIncrement (speed : ℕ) (invIncrement : Bool) : ℤ :=
  let increment : ℤ := 7 - (speed % 4 : ℕ)
  let increment := if invIncrement then -increment - 1 else increment
  if speed < 0x2C then increment * 2 ^ ((0x2F - speed) / 4) else increment

def baseDivinco (speed : ℕ) : ℕ :=
  if 0x30 ≤ speed then 32768 / 2 ^ ((speed - 0x2C) / 4) else 32768

/-- What the logarithmic modes make of a step at the level `current`. -/
def logDelta (speed : ℕ) (decMode : Bool) (current increment : ℤ) (divinco : ℕ) : ℤ × ℕ :=
  if decMode then (current * increment / 2 ^ 15, divinco)
  else if 0x6000 ≤ current % 0x8000 then
    if speed < 0x28 then (increment / 4, divinco)
    else if 0x2C ≤ speed then (increment, divinco / 4)
    else (increment / 2, divinco / 2)
  else (increment, divinco)

/-- `calc_vc_delta`: what one overflow of the divider adds to the level, and what one sample adds
to the divider. -/
def calcVcDelta (zs speed : ℕ) (logMode decMode invIncrement : Bool) (current : ℤ) : ℤ × ℕ :=
  let increment := baseIncrement speed invIncrement
  let divinco := baseDivinco speed
  let delta := if logMode then logDelta speed decMode current increment divinco
    else (increment, divinco)
  (delta.1, if delta.2 = 0 ∧ speed < zs then 1 else delta.2)

theorem baseIncrement_rising (speed : ℕ) :
    4 ≤ baseIncrement speed false ∧ baseIncrement speed false ≤ 14336 := by
  unfold baseIncrement
  by_cases h : speed < 0x2C
  · interval_cases speed <;> decide
  · have hmod : speed % 4 < 4 := Nat.mod_lt _ (by norm_num)
    simp only [h, if_false, Bool.false_eq_true]
    omega

theorem baseIncrement_falling (speed : ℕ) :
    -16384 ≤ baseIncrement speed true ∧ baseIncrement speed true ≤ -5 := by
  unfold baseIncrement
  by_cases h : speed < 0x2C
  · interval_cases speed <;> decide
  · have hmod : speed % 4 < 4 := Nat.mod_lt _ (by norm_num)
    simp only [h, if_false, if_true]
    omega

/-- The faster rates step far enough that a quarter of the step is still one. -/
theorem baseIncrement_quarter {speed : ℕ} (h : speed < 0x28) : 16 ≤ baseIncrement speed false := by
  unfold baseIncrement
  interval_cases speed <;> decide

theorem baseDivinco_le (speed : ℕ) : baseDivinco speed ≤ 0x8000 := by
  unfold baseDivinco
  split
  · exact Nat.div_le_self _ _
  · exact le_refl _

theorem logDelta_le (speed : ℕ) (decMode : Bool) (current increment : ℤ) (divinco : ℕ) :
    (logDelta speed decMode current increment divinco).2 ≤ divinco := by
  have hquarter := Nat.div_le_self divinco 4
  have hhalf := Nat.div_le_self divinco 2
  unfold logDelta
  split_ifs
  all_goals first | exact le_refl _ | assumption

theorem divinco_le (zs speed : ℕ) (logMode decMode inv : Bool) (current : ℤ) :
    (calcVcDelta zs speed logMode decMode inv current).2 ≤ 0x8000 := by
  have hbase := baseDivinco_le speed
  have hlog := logDelta_le speed decMode current (baseIncrement speed inv) (baseDivinco speed)
  unfold calcVcDelta
  cases logMode <;> simp only [if_true, if_false, Bool.false_eq_true] <;> split <;> omega

/-- Below the rate that stands for "never" the divider always moves. -/
theorem divinco_pos {zs speed : ℕ} (h : speed < zs) (logMode decMode inv : Bool) (current : ℤ) :
    1 ≤ (calcVcDelta zs speed logMode decMode inv current).2 := by
  unfold calcVcDelta
  dsimp only
  generalize (if logMode = true then logDelta speed decMode current (baseIncrement speed inv)
    (baseDivinco speed) else (baseIncrement speed inv, baseDivinco speed)).2 = divinco
  split <;> omega

theorem rising_increment (zs speed : ℕ) (logMode : Bool) (current : ℤ) :
    1 ≤ (calcVcDelta zs speed logMode false false current).1 ∧
      (calcVcDelta zs speed logMode false false current).1 ≤ 14336 := by
  have hbase := baseIncrement_rising speed
  have hquarter := @baseIncrement_quarter speed
  unfold calcVcDelta logDelta
  cases logMode <;> simp only [if_true, if_false, Bool.false_eq_true]
  · omega
  · split_ifs <;> dsimp only <;> omega

theorem falling_increment (zs speed : ℕ) (current : ℤ) :
    -16384 ≤ (calcVcDelta zs speed false true true current).1 ∧
      (calcVcDelta zs speed false true true current).1 ≤ -5 :=
  baseIncrement_falling speed

/-- A logarithmic fall takes at least one and at most the level. -/
theorem log_falling_increment (zs speed : ℕ) {current : ℤ} (h0 : 0 ≤ current) :
    -current ≤ (calcVcDelta zs speed true true true current).1 ∧
      (calcVcDelta zs speed true true true current).1 ≤ 0 ∧
      (1 ≤ current → (calcVcDelta zs speed true true true current).1 ≤ -1) := by
  obtain ⟨hlow, hhigh⟩ := baseIncrement_falling speed
  have hdef : (calcVcDelta zs speed true true true current).1 =
      current * baseIncrement speed true / 2 ^ 15 := rfl
  rw [hdef]
  refine ⟨?_, ?_, fun h1 => ?_⟩
  · rw [Int.le_ediv_iff_mul_le (by norm_num)]
    nlinarith
  · refine Int.ediv_nonpos_of_nonpos_of_neg ?_ (by norm_num)
    nlinarith
  · have hneg : current * baseIncrement speed true < 0 := by nlinarith
    have hlt := Int.ediv_neg_of_neg_of_pos hneg (by norm_num : (0 : ℤ) < 2 ^ 15)
    omega

/-! ## The envelope of a voice -/

/-- `ADSR_*` -/
inductive Phase
  | attack
  | decay
  | sustain
  | release
deriving DecidableEq, Repr

/-- The envelope fields of `SpuVoice`. -/
structure Envelope where
  envLevel : ℕ
  adsrDivider : ℕ
  adsrPhase : Phase
deriving DecidableEq, Repr

/-- Registers 4 and 5 of a voice as one word. -/
def adsrWord (lo hi : Half) : ℕ := lo.toNat + hi.toNat * 2 ^ 16

def sustainLevel (raw : ℕ) : ℕ := (raw % 0x10 + 1) * 2 ^ 11
def decayRate (raw : ℕ) : ℕ := raw / 2 ^ 4 % 0x10
def attackRate (raw : ℕ) : ℕ := raw / 2 ^ 8 % 0x80
def attackExp (raw : ℕ) : Bool := raw.testBit 15
def releaseRate (raw : ℕ) : ℕ := raw / 2 ^ 16 % 0x20
def releaseExp (raw : ℕ) : Bool := raw.testBit 21
def sustainRate (raw : ℕ) : ℕ := raw / 2 ^ 22 % 0x80
def sustainDec (raw : ℕ) : Bool := raw.testBit 30
def sustainExp (raw : ℕ) : Bool := raw.testBit 31

/-- `(int16_t)v->env_level` -/
def asInt16 (level : ℕ) : ℤ := if level < 0x8000 then level else (level : ℤ) - 0x10000

def envelopeDelta (raw : ℕ) (phase : Phase) (current : ℤ) : ℤ × ℕ :=
  match phase with
  | .attack => calcVcDelta 0x7F (attackRate raw) (attackExp raw) false false current
  | .decay => calcVcDelta (0x1F * 4) (decayRate raw * 4) true true true current
  | .sustain =>
    calcVcDelta 0x7F (sustainRate raw) (sustainExp raw) (sustainDec raw) (sustainDec raw) current
  | .release => calcVcDelta (0x1F * 4) (releaseRate raw * 4) (releaseExp raw) true true current

def uoflowReset (raw : ℕ) : Phase → ℕ
  | .attack => 0x7FFF
  | .decay => 0
  | .sustain => if sustainDec raw then 0 else 0x7FFF
  | .release => 0

/-- The attack that has reached the top is a decay before the step is taken. -/
def enterDecay (e : Envelope) : Phase :=
  if e.adsrPhase = .attack ∧ e.envLevel = 0x7FFF then .decay else e.adsrPhase

/-- `v->env_level = (uint16_t)((int)v->env_level + increment)` and the test of its high bit. -/
def moveLevel (raw : ℕ) (phase : Phase) (prev : ℕ) (increment : ℤ) : ℕ :=
  let level := ((prev + increment) % 2 ^ 16).toNat
  if phase = .attack then
    if level.testBit 15 && !prev.testBit 15 then uoflowReset raw phase else level
  else if level.testBit 15 then uoflowReset raw phase
  else level

/-- `adsr_run` -/
def adsrRun (raw : ℕ) (e : Envelope) : Envelope :=
  let phase := enterDecay e
  let delta := envelopeDelta raw phase (asInt16 e.envLevel)
  let divider := e.adsrDivider + delta.2
  if divider.testBit 15 then
    let level := moveLevel raw phase e.envLevel delta.1
    ⟨level, 0, if phase = .decay ∧ level < sustainLevel raw then .sustain else phase⟩
  else ⟨e.envLevel, divider, phase⟩

/-- What every step keeps. -/
structure Envelope.InRange (e : Envelope) : Prop where
  level : e.envLevel ≤ 0x7FFF
  divider : e.adsrDivider < 0x8000

/-- Whether the level climbs in this phase. -/
def rising (raw : ℕ) : Phase → Bool
  | .attack => true
  | .decay => false
  | .sustain => !sustainDec raw
  | .release => false

theorem envelopeDelta_rising {raw : ℕ} {phase : Phase} (h : rising raw phase = true) (current : ℤ) :
    1 ≤ (envelopeDelta raw phase current).1 ∧ (envelopeDelta raw phase current).1 ≤ 14336 := by
  cases phase with
  | attack => exact rising_increment _ _ _ _
  | decay => exact absurd h (by simp [rising])
  | sustain =>
    have hdec : sustainDec raw = false := by simpa [rising] using h
    unfold envelopeDelta
    rw [hdec]
    exact rising_increment _ _ _ _
  | release => exact absurd h (by simp [rising])

/-- A step down, linear or logarithmic. -/
theorem calcVcDelta_falling (zs speed : ℕ) (logMode : Bool) {current : ℤ} (h0 : 0 ≤ current)
    (hmax : current ≤ 0x7FFF) :
    -0x7FFF ≤ (calcVcDelta zs speed logMode true true current).1 ∧
      (calcVcDelta zs speed logMode true true current).1 ≤ 0 ∧
      (1 ≤ current → (calcVcDelta zs speed logMode true true current).1 ≤ -1) := by
  cases logMode with
  | false =>
    have h := falling_increment zs speed current
    omega
  | true =>
    have h := log_falling_increment zs speed h0
    omega

theorem envelopeDelta_falling {raw : ℕ} {phase : Phase} (h : rising raw phase = false)
    {current : ℤ} (h0 : 0 ≤ current) (hmax : current ≤ 0x7FFF) :
    -0x7FFF ≤ (envelopeDelta raw phase current).1 ∧ (envelopeDelta raw phase current).1 ≤ 0 ∧
      (1 ≤ current → (envelopeDelta raw phase current).1 ≤ -1) := by
  cases phase with
  | attack => exact absurd h (by simp [rising])
  | decay => exact calcVcDelta_falling _ _ _ h0 hmax
  | sustain =>
    have hdec : sustainDec raw = true := by simpa [rising] using h
    unfold envelopeDelta
    rw [hdec]
    exact calcVcDelta_falling _ _ _ h0 hmax
  | release => exact calcVcDelta_falling _ _ _ h0 hmax

theorem envelopeDelta_divinco_le (raw : ℕ) (phase : Phase) (current : ℤ) :
    (envelopeDelta raw phase current).2 ≤ 0x8000 := by
  cases phase <;> exact divinco_le _ _ _ _ _ _

theorem uoflowReset_eq (raw : ℕ) (phase : Phase) :
    uoflowReset raw phase = if rising raw phase then 0x7FFF else 0 := by
  cases phase <;> simp [uoflowReset, rising]
  cases sustainDec raw <;> rfl

theorem testBit_fifteen {n : ℕ} (h : n < 0x10000) : n.testBit 15 = decide (0x8000 ≤ n) := by
  rw [Nat.testBit_eq_decide_div_mod_eq]
  apply decide_eq_decide.2
  omega

theorem asInt16_of_le {level : ℕ} (h : level ≤ 0x7FFF) : asInt16 level = level := by
  unfold asInt16
  rw [if_pos (by omega)]

/-- The wrapped sum and the test of its high bit saturate the level. -/
theorem moveLevel_eq {raw : ℕ} {phase : Phase} {prev : ℕ} {increment : ℤ} (hprev : prev ≤ 0x7FFF)
    (hup : rising raw phase = true → 1 ≤ increment ∧ increment ≤ 14336)
    (hdown : rising raw phase = false → -0x7FFF ≤ increment ∧ increment ≤ 0) :
    (moveLevel raw phase prev increment : ℤ) = max 0 (min 0x7FFF (prev + increment)) := by
  have hwrap : ((prev + increment) % 2 ^ 16).toNat < 0x10000 := by omega
  have hprevBit : prev.testBit 15 = false := by
    rw [testBit_fifteen (by omega)]
    exact decide_eq_false (by omega)
  unfold moveLevel
  dsimp only
  rw [testBit_fifteen hwrap, hprevBit, uoflowReset_eq]
  cases hr : rising raw phase with
  | true =>
    have := hup hr
    simp only [Bool.not_false, Bool.and_true, decide_eq_true_eq, ite_self, if_true]
    split <;> omega
  | false =>
    have := hdown hr
    simp only [Bool.not_false, Bool.and_true, decide_eq_true_eq, ite_self, Bool.false_eq_true,
      if_false]
    split <;> omega

/-! ## One step of an envelope -/

/-- What one sample adds to the divider. -/
def divinco (raw : ℕ) (e : Envelope) : ℕ :=
  (envelopeDelta raw (enterDecay e) (asInt16 e.envLevel)).2

/-- What an overflow of the divider adds to the level. -/
def increment (raw : ℕ) (e : Envelope) : ℤ :=
  (envelopeDelta raw (enterDecay e) (asInt16 e.envLevel)).1

/-- The level an overflow of the divider leaves. -/
def movedLevel (raw : ℕ) (e : Envelope) : ℕ :=
  moveLevel raw (enterDecay e) e.envLevel (increment raw e)

theorem divinco_bound (raw : ℕ) (e : Envelope) : divinco raw e ≤ 0x8000 :=
  envelopeDelta_divinco_le _ _ _

theorem adsrRun_held {raw : ℕ} {e : Envelope} (h : e.adsrDivider + divinco raw e < 0x8000) :
    adsrRun raw e = ⟨e.envLevel, e.adsrDivider + divinco raw e, enterDecay e⟩ := by
  unfold divinco at *
  unfold adsrRun
  dsimp only
  rw [if_neg]
  rw [testBit_fifteen (by omega), decide_eq_true_eq]
  omega

theorem adsrRun_moved {raw : ℕ} {e : Envelope} (he : e.InRange)
    (h : 0x8000 ≤ e.adsrDivider + divinco raw e) :
    adsrRun raw e = ⟨movedLevel raw e, 0,
      if enterDecay e = .decay ∧ movedLevel raw e < sustainLevel raw then .sustain
      else enterDecay e⟩ := by
  have hbound := divinco_bound raw e
  have hdivider := he.divider
  unfold divinco at *
  unfold adsrRun movedLevel increment
  dsimp only
  rw [if_pos]
  rw [testBit_fifteen (by omega), decide_eq_true_eq]
  exact h

theorem movedLevel_eq (raw : ℕ) {e : Envelope} (he : e.InRange) :
    (movedLevel raw e : ℤ) = max 0 (min 0x7FFF (e.envLevel + increment raw e)) := by
  have hlevel := he.level
  refine moveLevel_eq hlevel (fun hr => envelopeDelta_rising hr _) fun hr => ?_
  have h0 : 0 ≤ asInt16 e.envLevel := by
    rw [asInt16_of_le hlevel]
    omega
  have hmax : asInt16 e.envLevel ≤ 0x7FFF := by
    rw [asInt16_of_le hlevel]
    omega
  obtain ⟨hlow, hhigh, -⟩ := envelopeDelta_falling hr h0 hmax
  exact ⟨hlow, hhigh⟩

theorem movedLevel_le (raw : ℕ) {e : Envelope} (he : e.InRange) : movedLevel raw e ≤ 0x7FFF := by
  have h := movedLevel_eq raw he
  omega

theorem adsrRun_inRange (raw : ℕ) {e : Envelope} (he : e.InRange) : (adsrRun raw e).InRange := by
  rcases Nat.lt_or_ge (e.adsrDivider + divinco raw e) 0x8000 with h | h
  · rw [adsrRun_held h]
    exact ⟨he.level, h⟩
  · rw [adsrRun_moved he h]
    exact ⟨movedLevel_le raw he, by norm_num⟩

def Phase.rank : Phase → ℕ
  | .attack => 0
  | .decay => 1
  | .sustain => 2
  | .release => 3

theorem Phase.rank_le (phase : Phase) : phase.rank ≤ Phase.release.rank := by
  cases phase <;> decide

theorem enterDecay_rank (e : Envelope) : e.adsrPhase.rank ≤ (enterDecay e).rank := by
  unfold enterDecay
  split
  · rename_i h
    rw [h.1]
    decide
  · exact le_refl _

theorem enterDecay_release (e : Envelope) :
    enterDecay e = .release ↔ e.adsrPhase = .release := by
  unfold enterDecay
  split
  · rename_i h
    simp [h.1]
  · exact Iff.rfl

/-- A step goes forward through attack, decay and sustain and never to release. -/
theorem adsrRun_phase (raw : ℕ) (e : Envelope) :
    e.adsrPhase.rank ≤ (adsrRun raw e).adsrPhase.rank ∧
      ((adsrRun raw e).adsrPhase = .release ↔ e.adsrPhase = .release) := by
  have hrank := enterDecay_rank e
  have hrel := enterDecay_release e
  unfold adsrRun
  dsimp only
  split
  · dsimp only
    split
    · rename_i h
      rw [h.1] at hrank hrel
      exact ⟨hrank.trans (by decide), by simpa using hrel⟩
    · exact ⟨hrank, hrel⟩
  · exact ⟨hrank, hrel⟩

/-! ## An attack and a release end -/

/-- Steps an attack has left at the slowest. -/
def attackLeft (e : Envelope) : ℕ := (0x7FFF - e.envLevel) * 0x8000 + (0x8000 - e.adsrDivider)

/-- Steps a release has left at the slowest. -/
def releaseLeft (e : Envelope) : ℕ := e.envLevel * 0x8000 + (0x8000 - e.adsrDivider)

theorem attack_step {raw : ℕ} {e : Envelope} (he : e.InRange) (hphase : e.adsrPhase = .attack)
    (htop : e.envLevel ≠ 0x7FFF) (hrate : attackRate raw ≠ 0x7F) :
    (adsrRun raw e).adsrPhase = .attack ∧ attackLeft (adsrRun raw e) < attackLeft e := by
  have henter : enterDecay e = .attack := by
    unfold enterDecay
    rw [if_neg (fun h => htop h.2), hphase]
  have hspeed : attackRate raw < 0x7F := by
    have : attackRate raw < 0x80 := Nat.mod_lt _ (by norm_num)
    omega
  have hmoves : 1 ≤ divinco raw e := by
    unfold divinco
    rw [henter]
    exact divinco_pos hspeed _ _ _ _
  have hlevel := he.level
  have hdivider := he.divider
  rcases Nat.lt_or_ge (e.adsrDivider + divinco raw e) 0x8000 with h | h
  · rw [adsrRun_held h]
    refine ⟨henter, ?_⟩
    unfold attackLeft
    dsimp only
    omega
  · have hup : 1 ≤ increment raw e := by
      unfold increment
      rw [henter]
      exact (rising_increment _ _ _ _).1
    have hmoved := movedLevel_eq raw he
    have hle := movedLevel_le raw he
    have hclimb : e.envLevel + 1 ≤ movedLevel raw e := by omega
    rw [adsrRun_moved he h]
    refine ⟨by simp [henter], ?_⟩
    unfold attackLeft
    dsimp only
    omega

theorem release_step {raw : ℕ} {e : Envelope} (he : e.InRange) (hphase : e.adsrPhase = .release)
    (hsound : e.envLevel ≠ 0) (hrate : releaseRate raw ≠ 0x1F) :
    (adsrRun raw e).adsrPhase = .release ∧ releaseLeft (adsrRun raw e) < releaseLeft e := by
  have henter : enterDecay e = .release := (enterDecay_release e).2 hphase
  have hspeed : releaseRate raw * 4 < 0x1F * 4 := by
    have : releaseRate raw < 0x20 := Nat.mod_lt _ (by norm_num)
    omega
  have hmoves : 1 ≤ divinco raw e := by
    unfold divinco
    rw [henter]
    exact divinco_pos hspeed _ _ _ _
  have hlevel := he.level
  have hdivider := he.divider
  rcases Nat.lt_or_ge (e.adsrDivider + divinco raw e) 0x8000 with h | h
  · rw [adsrRun_held h]
    refine ⟨henter, ?_⟩
    unfold releaseLeft
    dsimp only
    omega
  · have hdown : increment raw e ≤ -1 := by
      unfold increment
      rw [henter, asInt16_of_le hlevel]
      exact (calcVcDelta_falling _ _ _ (by omega) (by omega)).2.2 (by omega)
    have hmoved := movedLevel_eq raw he
    have hfall : movedLevel raw e + 1 ≤ e.envLevel := by omega
    rw [adsrRun_moved he h]
    refine ⟨by simp [henter], ?_⟩
    unfold releaseLeft
    dsimp only
    omega

/-- A release that has reached zero stays there. -/
theorem release_silent {raw : ℕ} {e : Envelope} (he : e.InRange) (hphase : e.adsrPhase = .release)
    (hsilent : e.envLevel = 0) :
    (adsrRun raw e).adsrPhase = .release ∧ (adsrRun raw e).envLevel = 0 := by
  have henter : enterDecay e = .release := (enterDecay_release e).2 hphase
  rcases Nat.lt_or_ge (e.adsrDivider + divinco raw e) 0x8000 with h | h
  · rw [adsrRun_held h]
    exact ⟨henter, hsilent⟩
  · have hdown : increment raw e ≤ 0 := by
      unfold increment
      rw [henter, asInt16_of_le he.level]
      exact (calcVcDelta_falling _ _ _ (by omega) (by omega)).2.1
    have hmoved := movedLevel_eq raw he
    rw [adsrRun_moved he h]
    exact ⟨by simp [henter], by dsimp only; omega⟩

/-! ## Sweeps -/

/-- `SweepEnv` -/
structure SweepEnv where
  level : ℤ
  divider : ℕ
deriving DecidableEq, Repr

/-- `volume_reg_decode` -/
def volumeRegDecode (raw : Half) : ℤ := (raw <<< 1).toInt

/-- `sweep_env_write` -/
def sweepEnvWrite (sw : SweepEnv) (raw : Half) : SweepEnv :=
  ⟨if raw.getLsbD 15 then sw.level else volumeRegDecode raw, 0⟩

/-- A level seen from the phase of the register, within what the rates work on. -/
def working (raw : Half) (level : ℤ) : ℤ :=
  max 0 (min 0x7FFF (if raw.getLsbD 12 then -level else level))

/-- `sweep_env_step` -/
def sweepEnvStep (sw : SweepEnv) (raw : Half) : SweepEnv :=
  if !raw.getLsbD 15 then sw
  else
    let delta := calcVcDelta 0x7F (raw.toNat % 0x80) (raw.getLsbD 14) (raw.getLsbD 13)
      (raw.getLsbD 13) (working raw sw.level)
    let divider := sw.divider + delta.2
    if divider.testBit 15 then
      let level := max 0 (min 0x7FFF (working raw sw.level + delta.1))
      ⟨if raw.getLsbD 12 then -level else level, 0⟩
    else ⟨sw.level, divider⟩

/-- `chan_volume` -/
def chanVolume (raw : Half) (sw : SweepEnv) : ℤ :=
  if raw.getLsbD 15 then sw.level else volumeRegDecode raw

/-- A step leaves the level or brings it within the range of a sweep. -/
theorem sweepEnvStep_level (sw : SweepEnv) (raw : Half) :
    (sweepEnvStep sw raw).level = sw.level ∨
      -0x7FFF ≤ (sweepEnvStep sw raw).level ∧ (sweepEnvStep sw raw).level ≤ 0x7FFF := by
  unfold sweepEnvStep
  dsimp only
  split
  · exact Or.inl rfl
  · split
    · right
      dsimp only
      split <;> omega
    · exact Or.inl rfl

theorem volumeRegDecode_range (raw : Half) :
    -0x8000 ≤ volumeRegDecode raw ∧ volumeRegDecode raw ≤ 0x7FFF := by
  generalize hdecoded : volumeRegDecode raw = level
  have hlow : -2 ^ (16 - 1) ≤ level := hdecoded ▸ BitVec.le_toInt (raw <<< 1)
  have hhigh : level < 2 ^ (16 - 1) := hdecoded ▸ BitVec.toInt_lt
  norm_num at hlow hhigh
  omega

end PsxRecomp.Spu
