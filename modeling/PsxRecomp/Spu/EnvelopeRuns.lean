import Mathlib
import PsxRecomp.Spu.Voice

/-! The envelope over the whole life of a voice, and a volume register over its writes and
samples. -/
namespace PsxRecomp.Spu
set_option autoImplicit false

/-! ## What happens to a voice -/

inductive VoiceOp
  | keyOn
  | keyOff
  | write (reg : Fin 8) (value : Half)
  | sample (memory : SampleMemory) (noise : Option ℤ)

def VoiceOp.apply (op : VoiceOp) (v : Voice) : Voice :=
  match op with
  | .keyOn => Spu.keyOn v
  | .keyOff => Spu.keyOff v
  | .write reg value => writeVoiceReg reg value v
  | .sample memory noise => (voiceNextSample memory noise v).1

/-- A voice after KEYON and whatever follows it. -/
def sinceKeyOn (v : Voice) (ops : List VoiceOp) : Voice :=
  ops.foldl (fun v op => op.apply v) (keyOn v)

/-- What holds of a voice at any time after KEYON: silence is the end of a release. -/
structure Voice.Keyed (v : Voice) : Prop where
  inRange : v.toEnvelope.InRange
  retired : v.active = false → v.adsrPhase = .release ∧ v.envLevel = 0

theorem keyOn_keyed (v : Voice) : (keyOn v).Keyed :=
  ⟨⟨Nat.zero_le _, by norm_num [keyOn]⟩, fun h => absurd h (by simp [keyOn])⟩

theorem voiceNextSample_clocked {m : SampleMemory} {noise : Option ℤ} {v : Voice}
    (h : v.needsClock = true) :
    (voiceNextSample m noise v).1 = (v.atReading m).afterReading v.active := by
  unfold voiceNextSample
  rw [h]
  rfl

theorem afterReading_active (audible : Bool) (v : Voice) :
    (v.afterReading audible).active =
      (v.active && !((v.afterReading audible).adsrPhase = .release &&
        (v.afterReading audible).envLevel = 0)) := rfl

theorem atReading_active (m : SampleMemory) (v : Voice) : (v.atReading m).active = v.active := by
  unfold Voice.atReading Voice.refill
  split <;> rfl

/-- At a reading the envelope is as it was, or forced to zero by the end of the sample. -/
theorem atReading_envelope (m : SampleMemory) (v : Voice) :
    (v.atReading m).toEnvelope = v.toEnvelope ∨
      v.sampleEnds = true ∧ (v.atReading m).toEnvelope = ⟨0, 0, .release⟩ := by
  unfold Voice.atReading
  split
  · unfold Voice.refill
    cases h : v.sampleEnds with
    | false => exact Or.inl rfl
    | true => exact Or.inr ⟨rfl, rfl⟩
  · exact Or.inl rfl

theorem sampleEnds_atReading (m : SampleMemory) {v : Voice} (h : v.sampleEnds = true) :
    (v.atReading m).toEnvelope = ⟨0, 0, .release⟩ := by
  have hidx : spuBlockSamples ≤ v.sampleIdx := by
    unfold Voice.sampleEnds at h
    simp only [Bool.and_eq_true, decide_eq_true_eq] at h
    exact h.1
  have hclock : (v.needsClock && decide (spuBlockSamples ≤ v.sampleIdx)) = true := by
    simp [Voice.needsClock, hidx]
  unfold Voice.atReading
  rw [if_pos hclock]
  unfold Voice.refill
  rw [h]
  rfl

theorem Voice.Keyed.atReading {v : Voice} (h : v.Keyed) (m : SampleMemory) :
    (v.atReading m).Keyed := by
  refine ⟨?_, fun hquiet => ?_⟩
  · rcases atReading_envelope m v with he | ⟨-, he⟩
    · rw [he]
      exact h.inRange
    · rw [he]
      exact ⟨by decide, by decide⟩
  · rw [atReading_active] at hquiet
    rcases atReading_envelope m v with he | ⟨-, he⟩
    · have := h.retired hquiet
      rw [← he] at this
      exact this
    · have : (v.atReading m).adsrPhase = .release ∧ (v.atReading m).envLevel = 0 := by
        rw [he]
        exact ⟨rfl, rfl⟩
      exact this

theorem Voice.Keyed.afterReading {v : Voice} (h : v.Keyed) :
    (v.afterReading v.active).Keyed := by
  unfold Voice.afterReading
  dsimp only
  refine ⟨?_, fun hquiet => ?_⟩
  · dsimp only
    split
    · exact adsrRun_inRange _ h.inRange
    · exact h.inRange
  · dsimp only at hquiet ⊢
    cases hactive : v.active with
    | false =>
      rw [hactive] at hquiet
      simpa [hactive] using h.retired hactive
    | true =>
      rw [hactive] at hquiet
      simpa using hquiet

theorem voiceNextSample_keyed {v : Voice} (h : v.Keyed) (m : SampleMemory) (noise : Option ℤ) :
    (voiceNextSample m noise v).1.Keyed := by
  unfold voiceNextSample
  split
  · exact h
  · dsimp only
    rw [← atReading_active m v]
    exact (h.atReading m).afterReading

theorem keyOff_keyed {v : Voice} (h : v.Keyed) : (keyOff v).Keyed := by
  unfold keyOff
  split
  · exact h
  · rename_i hactive
    exact ⟨⟨h.inRange.level, by norm_num⟩, fun hquiet => absurd hquiet (by simpa using hactive)⟩

theorem VoiceOp.apply_keyed (op : VoiceOp) {v : Voice} (h : v.Keyed) : (op.apply v).Keyed := by
  cases op with
  | keyOn => exact keyOn_keyed v
  | keyOff => exact keyOff_keyed h
  | write reg value => exact ⟨h.inRange, h.retired⟩
  | sample memory noise => exact voiceNextSample_keyed h memory noise

theorem sinceKeyOn_keyed (v : Voice) (ops : List VoiceOp) : (sinceKeyOn v ops).Keyed := by
  unfold sinceKeyOn
  have hstart := keyOn_keyed v
  generalize keyOn v = w at hstart
  induction ops generalizing w with
  | nil => exact hstart
  | cons op ops ih => exact ih _ (op.apply_keyed hstart)

/-! ## The order of the phases -/

/-- A sample runs the envelope of the reading, of a voice that sounds. -/
theorem voiceNextSample_envelope {v : Voice} (h : v.Keyed) (m : SampleMemory) (noise : Option ℤ) :
    ((voiceNextSample m noise v).1.adsrPhase = v.adsrPhase ∧ v.active = false) ∨
      v.active = true ∧ (voiceNextSample m noise v).1.toEnvelope =
        adsrRun (adsrWord ((v.atReading m).regs 4) ((v.atReading m).regs 5))
          (v.atReading m).toEnvelope := by
  cases hactive : v.active with
  | true =>
    right
    refine ⟨rfl, ?_⟩
    have hclock : v.needsClock = true := by simp [Voice.needsClock, hactive]
    unfold voiceNextSample
    rw [hclock]
    simp only [Bool.not_true, Bool.false_eq_true, if_false]
    unfold Voice.afterReading
    rw [hactive]
    rfl
  | false =>
    left
    refine ⟨?_, rfl⟩
    have hphase := (h.retired hactive).1
    unfold voiceNextSample
    split
    · rfl
    · unfold Voice.afterReading
      rw [hactive]
      dsimp only
      simp only [Bool.false_eq_true, if_false]
      have := ((h.atReading m).retired (by rw [atReading_active, hactive])).1
      rw [this, hphase]

theorem sample_phase {v : Voice} (h : v.Keyed) (m : SampleMemory) (noise : Option ℤ) :
    v.adsrPhase.rank ≤ (voiceNextSample m noise v).1.adsrPhase.rank ∧
      ((voiceNextSample m noise v).1.adsrPhase = .release →
        v.adsrPhase = .release ∨ v.sampleEnds = true) := by
  rcases voiceNextSample_envelope h m noise with ⟨hphase, -⟩ | ⟨-, henv⟩
  · rw [hphase]
    exact ⟨le_refl _, Or.inl⟩
  · obtain ⟨hrank, hrel⟩ := adsrRun_phase (adsrWord ((v.atReading m).regs 4) ((v.atReading m).regs 5))
      (v.atReading m).toEnvelope
    rw [← henv] at hrank hrel
    rcases atReading_envelope m v with he | ⟨hends, he⟩
    · have hsame : (v.atReading m).adsrPhase = v.adsrPhase := by rw [he]
      rw [hsame] at hrank hrel
      exact ⟨hrank, fun hr => Or.inl (hrel.1 hr)⟩
    · have hrelease : (v.atReading m).adsrPhase = .release := by rw [he]
      rw [hrelease] at hrank
      exact ⟨v.adsrPhase.rank_le.trans hrank, fun _ => Or.inr hends⟩

/-! ## A stretch of samples -/

/-- What comes between two samples and what the later one reads. -/
structure SampleInput where
  writes : List (Fin 8 × Half)
  memory : SampleMemory
  noise : Option ℤ

def Voice.written (v : Voice) (input : SampleInput) : Voice :=
  input.writes.foldl (fun v w => writeVoiceReg w.1 w.2 v) v

def Voice.next (v : Voice) (input : SampleInput) : Voice :=
  (voiceNextSample input.memory input.noise (v.written input)).1

/-- The voice after the first `n` samples of the stretch. -/
def Voice.play (v : Voice) (inputs : ℕ → SampleInput) : ℕ → Voice
  | 0 => v
  | n + 1 => (v.play inputs n).next (inputs n)

/-- The envelope registers that sample `n` runs with. -/
def Voice.adsrAt (v : Voice) (inputs : ℕ → SampleInput) (n : ℕ) : ℕ :=
  let written := (v.play inputs n).written (inputs n)
  adsrWord (written.regs 4) (written.regs 5)

theorem written_frame (v : Voice) (input : SampleInput) :
    (v.written input).toEnvelope = v.toEnvelope ∧ (v.written input).active = v.active ∧
      (v.written input).sampleEnds = v.sampleEnds := by
  unfold Voice.written
  generalize input.writes = writes
  induction writes generalizing v with
  | nil => exact ⟨rfl, rfl, rfl⟩
  | cons w writes ih => exact ih (writeVoiceReg w.1 w.2 v)

theorem refill_regs (m : SampleMemory) (v : Voice) {reg : Fin 8} (h : reg ≠ 7) :
    (v.atReading m).regs reg = v.regs reg := by
  unfold Voice.atReading
  split
  · unfold Voice.refill
    dsimp only
    split
    · exact Function.update_of_ne h _ _
    · rfl
  · rfl

theorem next_keyed {v : Voice} (h : v.Keyed) (input : SampleInput) : (v.next input).Keyed := by
  obtain ⟨henv, hactive, -⟩ := written_frame v input
  have hphase : (v.written input).adsrPhase = v.adsrPhase := by rw [henv]
  have hlevel : (v.written input).envLevel = v.envLevel := by rw [henv]
  refine voiceNextSample_keyed ⟨henv ▸ h.inRange, fun hquiet => ?_⟩ _ _
  rw [hactive] at hquiet
  rw [hphase, hlevel]
  exact h.retired hquiet

/-- One sample of a voice that sounds and does not end: the envelope runs with the registers as
written. -/
theorem next_envelope {v : Voice} (h : v.Keyed) (input : SampleInput) (hactive : v.active = true)
    (hgoes : v.sampleEnds = false) :
    (v.next input).toEnvelope =
      adsrRun (adsrWord ((v.written input).regs 4) ((v.written input).regs 5)) v.toEnvelope := by
  obtain ⟨henv, hact, hends⟩ := written_frame v input
  have hkeyed : (v.written input).Keyed := by
    have hphase : (v.written input).adsrPhase = v.adsrPhase := by rw [henv]
    have hlevel : (v.written input).envLevel = v.envLevel := by rw [henv]
    refine ⟨henv ▸ h.inRange, fun hquiet => ?_⟩
    rw [hact, hactive] at hquiet
    exact absurd hquiet (by decide)
  unfold Voice.next
  rcases voiceNextSample_envelope hkeyed input.memory input.noise with ⟨-, hquiet⟩ | ⟨-, hrun⟩
  · rw [hact, hactive] at hquiet
    exact absurd hquiet (by decide)
  · rw [hrun, refill_regs _ _ (by decide), refill_regs _ _ (by decide)]
    rcases atReading_envelope input.memory (v.written input) with he | ⟨hover, -⟩
    · rw [he, henv]
    · rw [hends, hgoes] at hover
      exact absurd hover (by decide)

theorem play_keyed {v : Voice} (h : v.Keyed) (inputs : ℕ → SampleInput) (n : ℕ) :
    (v.play inputs n).Keyed := by
  induction n with
  | zero => exact h
  | succ n ih => exact next_keyed ih (inputs n)

theorem Voice.Keyed.active_of {v : Voice} (h : v.Keyed)
    (hsounds : v.adsrPhase ≠ .release ∨ v.envLevel ≠ 0) : v.active = true := by
  cases hactive : v.active with
  | true => rfl
  | false =>
    obtain ⟨hphase, hlevel⟩ := h.retired hactive
    rcases hsounds with hsounds | hsounds
    · exact absurd hphase hsounds
    · exact absurd hlevel hsounds

/-- By sample `n` an attack is at the top, or its sample has ended, or it has `n` steps less to
go. -/
theorem attack_progress {v : Voice} (h : v.Keyed) (inputs : ℕ → SampleInput)
    (hattack : v.adsrPhase = .attack) (hrate : ∀ n, attackRate (v.adsrAt inputs n) ≠ 0x7F) (n : ℕ) :
    (∃ k ≤ n, (v.play inputs k).adsrPhase = .attack ∧ (v.play inputs k).envLevel = 0x7FFF) ∨
      (∃ k < n, (v.play inputs k).sampleEnds = true) ∨
      (v.play inputs n).adsrPhase = .attack ∧
        attackLeft (v.play inputs n).toEnvelope + n ≤ attackLeft v.toEnvelope := by
  induction n with
  | zero =>
    refine Or.inr (Or.inr ⟨hattack, ?_⟩)
    unfold Voice.play
    omega
  | succ n ih =>
    rcases ih with ⟨k, hk, htop⟩ | ⟨k, hk, hends⟩ | ⟨hphase, hleft⟩
    · exact Or.inl ⟨k, by omega, htop⟩
    · exact Or.inr (Or.inl ⟨k, by omega, hends⟩)
    · have hkeyed := play_keyed h inputs n
      by_cases htop : (v.play inputs n).envLevel = 0x7FFF
      · exact Or.inl ⟨n, by omega, hphase, htop⟩
      · cases hends : (v.play inputs n).sampleEnds with
        | true => exact Or.inr (Or.inl ⟨n, by omega, hends⟩)
        | false =>
          have hactive := hkeyed.active_of (Or.inl (by rw [hphase]; decide))
          have henv := next_envelope hkeyed (inputs n) hactive hends
          have hstep := attack_step hkeyed.inRange hphase htop (hrate n)
          change (adsrRun (adsrWord _ _) _).adsrPhase = _ ∧ attackLeft (adsrRun (adsrWord _ _) _) < _
            at hstep
          rw [← henv] at hstep
          exact Or.inr (Or.inr ⟨hstep.1, by have := hstep.2; unfold Voice.play; omega⟩)

/-- The slowest attack: one unit of the divider for each sample. -/
@[irreducible] def slowestRun : ℕ := 0x8000 * 0x8000

theorem attackLeft_le (e : Envelope) : attackLeft e < slowestRun + 1 := by
  unfold attackLeft slowestRun
  omega

theorem attack_ends {v : Voice} (h : v.Keyed) (inputs : ℕ → SampleInput)
    (hattack : v.adsrPhase = .attack) (hrate : ∀ n, attackRate (v.adsrAt inputs n) ≠ 0x7F) :
    (∃ n ≤ slowestRun, (v.play inputs n).adsrPhase = .attack ∧
        (v.play inputs n).envLevel = 0x7FFF) ∨
      ∃ n < slowestRun, (v.play inputs n).sampleEnds = true := by
  rcases attack_progress h inputs hattack hrate slowestRun with htop | hends | ⟨hphase, hleft⟩
  · exact Or.inl htop
  · exact Or.inr hends
  · have hmax := attackLeft_le v.toEnvelope
    have hrange := (play_keyed h inputs slowestRun).inRange
    have hdivider := hrange.divider
    have hnone : attackLeft (v.play inputs slowestRun).toEnvelope = 0 := by omega
    unfold attackLeft at hnone
    omega

/-- A sample that leaves a release at zero retires the voice. -/
theorem next_retires {v : Voice} (input : SampleInput) (hactive : v.active = true)
    (hphase : (v.next input).adsrPhase = .release) (hlevel : (v.next input).envLevel = 0) :
    (v.next input).active = false := by
  have hact : (v.written input).active = true := (written_frame v input).2.1.trans hactive
  have hclock : (v.written input).needsClock = true := by simp [Voice.needsClock, hact]
  unfold Voice.next at *
  rw [voiceNextSample_clocked hclock] at *
  rw [afterReading_active, hphase, hlevel]
  simp

/-- A sample of a voice in release lowers what is left of it or retires the voice. -/
theorem release_next {v : Voice} (h : v.Keyed) (input : SampleInput) (hactive : v.active = true)
    (hphase : v.adsrPhase = .release)
    (hrate : releaseRate (adsrWord ((v.written input).regs 4) ((v.written input).regs 5)) ≠ 0x1F) :
    (v.next input).envLevel = 0 ∧ (v.next input).active = false ∨
      (v.next input).adsrPhase = .release ∧
        releaseLeft (v.next input).toEnvelope < releaseLeft v.toEnvelope := by
  obtain ⟨henvw, hactw, hendsw⟩ := written_frame v input
  cases hends : v.sampleEnds with
  | true =>
    -- the reading forces the envelope to zero, and the step keeps it there
    left
    have hforced := sampleEnds_atReading input.memory (hendsw.trans hends)
    have hkeyed : (v.written input).Keyed :=
      ⟨henvw ▸ h.inRange, fun hquiet => absurd (hquiet.symm.trans (hactw.trans hactive)) (by decide)⟩
    have hrun : (v.next input).toEnvelope = adsrRun (adsrWord
        (((v.written input).atReading input.memory).regs 4)
        (((v.written input).atReading input.memory).regs 5)) ⟨0, 0, .release⟩ := by
      rcases voiceNextSample_envelope hkeyed input.memory input.noise with ⟨-, hquiet⟩ | ⟨-, hrun⟩
      · exact absurd (hquiet.symm.trans (hactw.trans hactive)) (by decide)
      · rw [hforced] at hrun
        exact hrun
    have hsilent := @release_silent (adsrWord
      (((v.written input).atReading input.memory).regs 4)
      (((v.written input).atReading input.memory).regs 5)) ⟨0, 0, .release⟩
      ⟨by decide, by decide⟩ rfl rfl
    rw [← hrun] at hsilent
    exact ⟨hsilent.2, next_retires input hactive hsilent.1 hsilent.2⟩
  | false =>
    have henv := next_envelope h input hactive hends
    by_cases hzero : v.envLevel = 0
    · left
      have hsilent := @release_silent (adsrWord ((v.written input).regs 4)
        ((v.written input).regs 5)) v.toEnvelope h.inRange hphase hzero
      rw [← henv] at hsilent
      exact ⟨hsilent.2, next_retires input hactive hsilent.1 hsilent.2⟩
    · right
      have hstep := release_step h.inRange hphase hzero hrate
      rw [← henv] at hstep
      exact hstep

theorem release_progress {v : Voice} (h : v.Keyed) (inputs : ℕ → SampleInput)
    (hrelease : v.adsrPhase = .release) (hactive : v.active = true)
    (hrate : ∀ n, releaseRate (v.adsrAt inputs n) ≠ 0x1F) (n : ℕ) :
    (∃ k ≤ n, (v.play inputs k).envLevel = 0 ∧ (v.play inputs k).active = false) ∨
      (v.play inputs n).adsrPhase = .release ∧ (v.play inputs n).active = true ∧
        releaseLeft (v.play inputs n).toEnvelope + n ≤ releaseLeft v.toEnvelope := by
  induction n with
  | zero =>
    refine Or.inr ⟨hrelease, hactive, ?_⟩
    unfold Voice.play
    omega
  | succ n ih =>
    rcases ih with ⟨k, hk, hretired⟩ | ⟨hphase, hact, hleft⟩
    · exact Or.inl ⟨k, by omega, hretired⟩
    · have hkeyed := play_keyed h inputs n
      rcases release_next hkeyed (inputs n) hact hphase (hrate n) with hretired | ⟨hstays, hless⟩
      · exact Or.inl ⟨n + 1, le_refl _, hretired⟩
      · cases hnext : ((v.play inputs n).next (inputs n)).active with
        | false =>
          have hretired := (next_keyed hkeyed (inputs n)).retired hnext
          exact Or.inl ⟨n + 1, le_refl _, hretired.2, hnext⟩
        | true =>
          refine Or.inr ⟨hstays, hnext, ?_⟩
          change releaseLeft ((v.play inputs n).next (inputs n)).toEnvelope + (n + 1) ≤ _
          omega

theorem releaseLeft_le {e : Envelope} (h : e.InRange) : releaseLeft e < slowestRun + 1 := by
  have hlevel := h.level
  unfold releaseLeft slowestRun
  omega

theorem release_ends {v : Voice} (h : v.Keyed) (inputs : ℕ → SampleInput)
    (hrelease : v.adsrPhase = .release)
    (hrate : ∀ n, releaseRate (v.adsrAt inputs n) ≠ 0x1F) :
    ∃ n ≤ slowestRun, (v.play inputs n).envLevel = 0 ∧ (v.play inputs n).active = false := by
  cases hactive : v.active with
  | false => exact ⟨0, Nat.zero_le _, (h.retired hactive).2, hactive⟩
  | true =>
    rcases release_progress h inputs hrelease hactive hrate slowestRun with
      hretired | ⟨hphase, hact, hleft⟩
    · exact hretired
    · have hmax := releaseLeft_le h.inRange
      have hdivider := (play_keyed h inputs slowestRun).inRange.divider
      have hnone : releaseLeft (v.play inputs slowestRun).toEnvelope = 0 := by omega
      unfold releaseLeft at hnone
      omega

/-! ## Volume registers -/

inductive VolumeOp
  | write (raw : Half)
  | sample

/-- A volume register and its sweep. -/
structure VolumeReg where
  raw : Half
  sweep : SweepEnv
deriving DecidableEq

def VolumeReg.apply (r : VolumeReg) : VolumeOp → VolumeReg
  | .write raw => ⟨raw, sweepEnvWrite r.sweep raw⟩
  | .sample => { r with sweep := sweepEnvStep r.sweep r.raw }

/-- A volume register since `spu_init`. -/
def volumeAfter (ops : List VolumeOp) : VolumeReg := ops.foldl VolumeReg.apply ⟨0, ⟨0, 0⟩⟩

def VolumeReg.sweeping (r : VolumeReg) : Prop := r.raw.getLsbD 15 = true

def VolumeReg.volume (r : VolumeReg) : ℤ := chanVolume r.raw r.sweep

/-- The level is the lowest direct volume, written and not moved since. -/
def RestsAtLowest (ops : List VolumeOp) : Prop :=
  ∃ before raw since, ops = before ++ .write raw :: since ∧ raw.getLsbD 15 = false ∧
    volumeRegDecode raw = -0x8000 ∧
    ∀ part, part <+: since → (volumeAfter (before ++ .write raw :: part)).sweep.level = -0x8000

theorem restsAtLowest_append {ops : List VolumeOp} {op : VolumeOp} (h : RestsAtLowest ops)
    (hlevel : (volumeAfter (ops ++ [op])).sweep.level = -0x8000) : RestsAtLowest (ops ++ [op]) := by
  obtain ⟨before, raw, since, rfl, hdirect, hlow, hheld⟩ := h
  refine ⟨before, raw, since ++ [op], by simp, hdirect, hlow, fun part hpart => ?_⟩
  rcases List.prefix_concat_iff.1 (by simpa using hpart) with rfl | hpart
  · simpa using hlevel
  · exact hheld part hpart

theorem volume_level (ops : List VolumeOp) :
    -0x7FFF ≤ (volumeAfter ops).sweep.level ∧ (volumeAfter ops).sweep.level ≤ 0x7FFF ∨
      (volumeAfter ops).sweep.level = -0x8000 ∧ RestsAtLowest ops := by
  induction ops using List.reverseRecOn with
  | nil => exact Or.inl (by decide)
  | append_singleton ops op ih =>
    have hsnoc : volumeAfter (ops ++ [op]) = (volumeAfter ops).apply op := by
      unfold volumeAfter
      rw [List.foldl_append]
      rfl
    -- an operation that leaves the level
    have hleft : ((volumeAfter ops).apply op).sweep.level = (volumeAfter ops).sweep.level →
        -0x7FFF ≤ (volumeAfter (ops ++ [op])).sweep.level ∧
            (volumeAfter (ops ++ [op])).sweep.level ≤ 0x7FFF ∨
          (volumeAfter (ops ++ [op])).sweep.level = -0x8000 ∧ RestsAtLowest (ops ++ [op]) := by
      intro hsame
      rcases ih with hrange | ⟨hlow, hrests⟩
      · exact Or.inl (by rw [hsnoc, hsame]; exact hrange)
      · have hlevel : (volumeAfter (ops ++ [op])).sweep.level = -0x8000 := by
          rw [hsnoc, hsame, hlow]
        exact Or.inr ⟨hlevel, restsAtLowest_append hrests hlevel⟩
    cases op with
    | write raw =>
      cases hmode : raw.getLsbD 15 with
      | true => exact hleft (by simp [VolumeReg.apply, sweepEnvWrite, hmode])
      | false =>
        have hlevel : (volumeAfter (ops ++ [.write raw])).sweep.level = volumeRegDecode raw := by
          rw [hsnoc]
          unfold VolumeReg.apply sweepEnvWrite
          dsimp only
          rw [hmode]
          rfl
        have hrange := volumeRegDecode_range raw
        rw [hlevel]
        by_cases hlow : volumeRegDecode raw = -0x8000
        · refine Or.inr ⟨hlow, ops, raw, [], rfl, hmode, hlow, fun part hpart => ?_⟩
          rw [List.prefix_nil.1 hpart, hlevel, hlow]
        · exact Or.inl (by omega)
    | sample =>
      rcases sweepEnvStep_level (volumeAfter ops).sweep (volumeAfter ops).raw with hsame | hrange
      · exact hleft hsame
      · exact Or.inl (by rw [hsnoc]; exact hrange)

/-! ## Soundness -/

/-- What holds of a voice whatever comes next. -/
structure EnvelopeSound (v : Voice) : Prop where
  inRange : v.toEnvelope.InRange
  forward : ∀ op : VoiceOp, op ≠ .keyOn → v.adsrPhase.rank ≤ (op.apply v).adsrPhase.rank
  released : ∀ op : VoiceOp, op ≠ .keyOn → (op.apply v).adsrPhase = .release →
    v.adsrPhase = .release ∨ op = .keyOff ∨
      ∃ memory noise, op = .sample memory noise ∧ v.sampleEnds = true
  attackEnds : ∀ inputs : ℕ → SampleInput, v.adsrPhase = .attack → (∀ n, attackRate (v.adsrAt inputs n) ≠ 0x7F) →
    (∃ n ≤ slowestRun, (v.play inputs n).adsrPhase = .attack ∧
        (v.play inputs n).envLevel = 0x7FFF) ∨
      ∃ n < slowestRun, (v.play inputs n).sampleEnds = true
  releaseEnds : ∀ inputs : ℕ → SampleInput, v.adsrPhase = .release →
    (∀ n, releaseRate (v.adsrAt inputs n) ≠ 0x1F) →
    ∃ n ≤ slowestRun, (v.play inputs n).envLevel = 0 ∧ (v.play inputs n).active = false

theorem keyOff_phase (v : Voice) :
    v.adsrPhase.rank ≤ (keyOff v).adsrPhase.rank := by
  unfold keyOff
  split
  · exact le_refl _
  · exact v.adsrPhase.rank_le

theorem Voice.Keyed.sound {v : Voice} (h : v.Keyed) : EnvelopeSound v where
  inRange := h.inRange
  forward op hop := by
    cases op with
    | keyOn => exact absurd rfl hop
    | keyOff => exact keyOff_phase v
    | write reg value => exact le_refl _
    | sample memory noise => exact (sample_phase h memory noise).1
  released op hop hreleased := by
    cases op with
    | keyOn => exact absurd rfl hop
    | keyOff => exact Or.inr (Or.inl rfl)
    | write reg value => exact Or.inl hreleased
    | sample memory noise =>
      rcases (sample_phase h memory noise).2 hreleased with hwas | hends
      · exact Or.inl hwas
      · exact Or.inr (Or.inr ⟨memory, noise, rfl, hends⟩)
  attackEnds := attack_ends h
  releaseEnds := release_ends h

/-- Every voice since its KEYON keeps its envelope in range and moves it forward, attacks and
releases end, and a sweep is within its range as soon as it has moved. -/
theorem envelope_sound :
    (∀ v ops, EnvelopeSound (sinceKeyOn v ops)) ∧
      ∀ ops, (volumeAfter ops).sweeping →
        -0x7FFF ≤ (volumeAfter ops).volume ∧ (volumeAfter ops).volume ≤ 0x7FFF ∨
          (volumeAfter ops).volume = -0x8000 ∧ RestsAtLowest ops := by
  refine ⟨fun v ops => (sinceKeyOn_keyed v ops).sound, fun ops hsweeping => ?_⟩
  have hvolume : (volumeAfter ops).volume = (volumeAfter ops).sweep.level := by
    unfold VolumeReg.volume chanVolume
    unfold VolumeReg.sweeping at hsweeping
    rw [if_pos hsweeping]
  rw [hvolume]
  exact volume_level ops

/-- The direct volume `0x4000` and a sweep at the rate that never moves: the volume stays at
`-0x8000`. -/
theorem swept_below_range :
    ¬ ∀ ops, (volumeAfter ops).sweeping →
      -0x7FFF ≤ (volumeAfter ops).volume ∧ (volumeAfter ops).volume ≤ 0x7FFF := by
  intro h
  have hlow := h [.write 0x4000#16, .write 0x807F#16, .sample] (by unfold VolumeReg.sweeping; decide)
  exact absurd hlow (by decide)

end PsxRecomp.Spu
