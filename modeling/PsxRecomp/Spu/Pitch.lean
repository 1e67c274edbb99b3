import Mathlib
import PsxRecomp.Spu.EnvelopeRuns

/-! The pitch counter of a voice: where in the decoded stream each sample is read. -/
namespace PsxRecomp.Spu
set_option autoImplicit false

/-! ## The decoded stream -/

/-- The decoder after the first `n` blocks, the jumps of END followed. -/
def blockStream (m : SampleMemory) (start : Decoder) (n : ℕ) : Decoder := (nextBlock m)^[n] start

/-- Sample `j` of the blocks in their order. -/
def streamSample (m : SampleMemory) (start : Decoder) (j : ℕ) : ℤ :=
  (blockStream m start (j / spuBlockSamples + 1)).samples (j % spuBlockSamples)

/-- The stream at `position` and a fraction of 4096 beyond, silence before its first sample. -/
def streamInterpolate (m : SampleMemory) (start : Decoder) (position fraction : ℕ) : ℤ :=
  gaussSum (fun offset => if offset ≤ position then streamSample m start (position - offset) else 0)
    fraction

theorem blockStream_succ (m : SampleMemory) (start : Decoder) (n : ℕ) :
    blockStream m start (n + 1) = nextBlock m (blockStream m start n) :=
  Function.iterate_succ_apply' _ _ _

theorem nextBlock_previous (m : SampleMemory) (d : Decoder) (i : ℕ) :
    (nextBlock m d).previousSamples i = d.samples (25 + i) := by
  unfold nextBlock decodeBlock followEnd
  split <;> rfl

theorem streamSample_block (m : SampleMemory) (start : Decoder) (n : ℕ) {i : ℕ}
    (hi : i < spuBlockSamples) :
    streamSample m start (spuBlockSamples * n + i) = (blockStream m start (n + 1)).samples i := by
  unfold streamSample
  unfold spuBlockSamples at *
  rw [show (28 * n + i) / 28 = n by omega, show (28 * n + i) % 28 = i by omega]

/-- Only the four taps matter, and of the phase only the fraction. -/
theorem gaussSum_congr {tap tap' : ℕ → ℤ} {phase phase' : ℕ}
    (htap : ∀ offset ≤ 3, tap offset = tap' offset)
    (hphase : phase / 16 % 256 = phase' / 16 % 256) : gaussSum tap phase = gaussSum tap' phase' := by
  unfold gaussSum
  rw [hphase, htap 0 (by norm_num), htap 1 (by norm_num), htap 2 (by norm_num),
    htap 3 (by norm_num)]

/-- The window of block `n` is the stream around the sample. -/
theorem interpolate_stream (m : SampleMemory) {start : Decoder} (hstart : ∀ i, start.samples i = 0)
    (n : ℕ) {i phase fraction : ℕ} (hi : i < spuBlockSamples)
    (hphase : phase / 16 % 256 = fraction / 16 % 256) :
    spuGaussianInterpolate (blockStream m start (n + 1)).previousSamples
        (blockStream m start (n + 1)).samples i phase =
      streamInterpolate m start (spuBlockSamples * n + i) fraction := by
  unfold spuGaussianInterpolate streamInterpolate
  refine gaussSum_congr (fun offset hoffset => ?_) hphase
  by_cases hback : offset ≤ i
  · rw [if_pos hback, if_pos (by omega),
      show spuBlockSamples * n + i - offset = spuBlockSamples * n + (i - offset) by omega,
      streamSample_block m start n (by omega)]
  · rw [if_neg hback, blockStream_succ, nextBlock_previous]
    cases n with
    | zero =>
      rw [if_neg (by omega)]
      exact hstart _
    | succ n =>
      unfold spuBlockSamples at *
      rw [if_pos (by omega), show 28 * (n + 1) + i - offset = 28 * n + (28 + i - offset) by omega,
        ← streamSample_block m start n (by unfold spuBlockSamples; omega)]
      unfold spuBlockSamples
      congr 1
      omega

/-! ## The pitch counter -/

/-- What comes before a sample: the pitch and the envelope registers, the noise bit, a KEYOFF. -/
structure PitchInput where
  pitch : Half
  adsrLo : Half
  adsrHi : Half
  noise : Option ℤ
  keyedOff : Bool

def Voice.prepare (v : Voice) (input : PitchInput) : Voice :=
  let v := writeVoiceReg 5 input.adsrHi (writeVoiceReg 4 input.adsrLo
    (writeVoiceReg 2 input.pitch v))
  if input.keyedOff then keyOff v else v

/-- The voice after KEYON and `k` samples. -/
def playPitches (m : SampleMemory) (v : Voice) (input : ℕ → PitchInput) : ℕ → Voice
  | 0 => keyOn v
  | k + 1 =>
    (voiceNextSample m (input k).noise ((playPitches m v input k).prepare (input k))).1

/-- The voice at the reading of sample `k`. -/
def readingAt (m : SampleMemory) (v : Voice) (input : ℕ → PitchInput) (k : ℕ) : Voice :=
  ((playPitches m v input k).prepare (input k)).atReading m

/-- `p_0 + … + p_{k-1}` -/
def pitchSum (input : ℕ → PitchInput) : ℕ → ℕ
  | 0 => 0
  | k + 1 => pitchSum input k + (input k).pitch.toNat % 0x4000

/-- The block of the sample that the pitches have come to. -/
def blockOf (total : ℕ) : ℕ := total / 4096 / spuBlockSamples

/-- A reading: the blocks up to the one of the position are decoded, and of the way into it the
index and the phase account for everything. -/
structure Reads (m : SampleMemory) (start : Decoder) (total : ℕ) (v : Voice) : Prop where
  blocks : v.toDecoder = blockStream m start (blockOf total + 1)
  position : 4096 * (spuBlockSamples * blockOf total + v.sampleIdx) + v.phase = total
  inBlock : v.sampleIdx < spuBlockSamples
  carried : v.phase < 4096 ∨ v.sampleIdx = 0 ∧ v.phase < 4 * 4096

/-- After the pitch is added to a reading at `total`: the block may have run out with up to three
samples still in the phase. -/
structure Stepped (m : SampleMemory) (start : Decoder) (total pitch : ℕ) (v : Voice) : Prop where
  blocks : v.toDecoder = blockStream m start (blockOf total + 1)
  position : 4096 * (spuBlockSamples * blockOf total + v.sampleIdx) + v.phase = total + pitch
  place : v.sampleIdx < spuBlockSamples ∧ v.phase < 4096 ∨
    v.sampleIdx = spuBlockSamples ∧ v.phase < 4 * 4096

theorem stepSamples_eq (fuel : ℕ) {sampleIdx phase : ℕ} (hidx : sampleIdx < spuBlockSamples)
    (hfuel : phase / 0x1000 ≤ fuel) :
    stepSamples fuel sampleIdx phase =
      (sampleIdx + min (phase / 0x1000) (spuBlockSamples - sampleIdx),
        phase - 0x1000 * min (phase / 0x1000) (spuBlockSamples - sampleIdx)) := by
  induction fuel generalizing sampleIdx phase with
  | zero =>
    have hnone : phase / 0x1000 = 0 := by omega
    unfold stepSamples
    rw [hnone, Nat.zero_min]
    rfl
  | succ fuel ih =>
    unfold stepSamples
    split
    · rename_i hsmall
      rw [Nat.div_eq_of_lt hsmall, Nat.zero_min]
      rfl
    · split
      · rw [Prod.mk.injEq]
        omega
      · rw [ih (by omega) (by omega), Prod.mk.injEq]
        omega

theorem prepare_frame (v : Voice) (input : PitchInput) :
    (v.prepare input).toDecoder = v.toDecoder ∧ (v.prepare input).sampleIdx = v.sampleIdx ∧
      (v.prepare input).phase = v.phase ∧ (v.prepare input).pitch = input.pitch.toNat % 0x4000 := by
  unfold Voice.prepare keyOff
  dsimp only
  split
  · split <;> exact ⟨rfl, rfl, rfl, rfl⟩
  · exact ⟨rfl, rfl, rfl, rfl⟩

/-- A voice that is not clocked has no pitch and stands inside its block. -/
theorem unclocked {v : Voice} (h : v.needsClock = false) :
    v.pitch = 0 ∧ v.sampleIdx < spuBlockSamples := by
  unfold Voice.needsClock at h
  simp only [Bool.or_eq_false_iff, decide_eq_false_iff_not, bne_eq_false_iff_eq, not_le] at h
  exact h.2

theorem Reads.next {m : SampleMemory} {start : Decoder} {total : ℕ} {v : Voice}
    (h : Reads m start total (v.atReading m)) (noise : Option ℤ)
    (hquiet : v.needsClock = false → v.phase < 4096) :
    Stepped m start total v.pitch (voiceNextSample m noise v).1 := by
  cases hclock : v.needsClock with
  | false =>
    have hsame : v.atReading m = v := by
      unfold Voice.atReading
      rw [hclock]
      rfl
    have hskip : (voiceNextSample m noise v).1 = v := by
      unfold voiceNextSample
      rw [hclock]
      rfl
    rw [hsame] at h
    rw [hskip, (unclocked hclock).1]
    exact ⟨h.blocks, h.position, Or.inl ⟨h.inBlock, hquiet hclock⟩⟩
  | true =>
    have hpitch : (v.atReading m).pitch = v.pitch := by
      unfold Voice.pitch
      rw [refill_regs m v (by decide)]
    have hmax : v.pitch < 0x4000 := Nat.mod_lt _ (by norm_num)
    have hposition := h.position
    have hin := h.inBlock
    have hcarried := h.carried
    rw [voiceNextSample_clocked hclock]
    have hidx : ((v.atReading m).afterReading v.active).sampleIdx = (v.atReading m).sampleIdx +
        min (((v.atReading m).phase + v.pitch) / 0x1000)
          (spuBlockSamples - (v.atReading m).sampleIdx) := by
      change (stepSamples _ _ _).1 = _
      rw [stepSamples_eq _ hin (le_refl _), hpitch]
    have hphase : ((v.atReading m).afterReading v.active).phase = (v.atReading m).phase + v.pitch -
        0x1000 * min (((v.atReading m).phase + v.pitch) / 0x1000)
          (spuBlockSamples - (v.atReading m).sampleIdx) := by
      change (stepSamples _ _ _).2 = _
      rw [stepSamples_eq _ hin (le_refl _), hpitch]
    unfold spuBlockSamples at *
    refine ⟨h.blocks, ?_, ?_⟩
    · rw [hidx, hphase]
      unfold spuBlockSamples
      omega
    · rw [hidx, hphase]
      unfold spuBlockSamples
      omega

/-- The next reading: inside the block as it stands, at its end the next block is decoded. -/
theorem Stepped.reading {m : SampleMemory} {start : Decoder} {total pitch : ℕ} {v : Voice}
    (h : Stepped m start total pitch v) :
    Reads m start (total + pitch) (v.atReading m) ∧
      (blockOf (total + pitch) = blockOf total → (v.atReading m).phase < 4096) ∧
      (blockOf (total + pitch) ≠ blockOf total → (v.atReading m).sampleIdx = 0) := by
  have hposition := h.position
  unfold spuBlockSamples at hposition
  rcases h.place with ⟨hidx, hphase⟩ | ⟨hidx, hphase⟩
  · have hsame : v.atReading m = v := by
      unfold Voice.atReading
      rw [if_neg]
      simp only [Bool.and_eq_true, decide_eq_true_eq, not_and]
      omega
    have hblock : blockOf (total + pitch) = blockOf total := by
      unfold blockOf spuBlockSamples at *
      omega
    rw [hsame]
    refine ⟨⟨?_, ?_, hidx, Or.inl hphase⟩, fun _ => hphase, fun hne => absurd hblock hne⟩
    · rw [hblock]
      exact h.blocks
    · rw [hblock]
      exact h.position
  · have hclock : (v.needsClock && decide (spuBlockSamples ≤ v.sampleIdx)) = true := by
      simp [Voice.needsClock, hidx]
    have hrefill : v.atReading m = v.refill m := by
      unfold Voice.atReading
      rw [if_pos hclock]
    have hblock : blockOf (total + pitch) = blockOf total + 1 := by
      unfold blockOf spuBlockSamples at *
      omega
    have hzero : (v.refill m).sampleIdx = 0 := rfl
    have hkept : (v.refill m).phase = v.phase := rfl
    have hdecoded : (v.refill m).toDecoder = nextBlock m v.toDecoder := rfl
    rw [hrefill]
    refine ⟨⟨?_, ?_, ?_, ?_⟩, fun heq => ?_, fun _ => hzero⟩
    · rw [hdecoded, hblock, blockStream_succ, h.blocks]
    · rw [hzero, hkept, hblock]
      unfold spuBlockSamples at *
      omega
    · rw [hzero]
      decide
    · rw [hzero, hkept]
      exact Or.inr ⟨rfl, hphase⟩
    · omega

theorem Stepped.prepare {m : SampleMemory} {start : Decoder} {total pitch : ℕ} {v : Voice}
    (h : Stepped m start total pitch v) (input : PitchInput) :
    Stepped m start total pitch (v.prepare input) := by
  obtain ⟨hdecoder, hidx, hphase, -⟩ := prepare_frame v input
  refine ⟨hdecoder.trans h.blocks, ?_, ?_⟩
  · rw [hidx, hphase]
    exact h.position
  · rw [hidx, hphase]
    exact h.place

/-- The first reading decodes the first block. -/
theorem keyOn_reading (m : SampleMemory) (v : Voice) (input : PitchInput) :
    Reads m (keyOn v).toDecoder 0 (((keyOn v).prepare input).atReading m) ∧
      (((keyOn v).prepare input).atReading m).phase = 0 := by
  obtain ⟨hdecoder, hidx, hphase, -⟩ := prepare_frame (keyOn v) input
  have hend : ((keyOn v).prepare input).sampleIdx = spuBlockSamples := hidx
  have hclock : (((keyOn v).prepare input).needsClock &&
      decide (spuBlockSamples ≤ ((keyOn v).prepare input).sampleIdx)) = true := by
    simp [Voice.needsClock, hend]
  have hrefill : ((keyOn v).prepare input).atReading m = ((keyOn v).prepare input).refill m := by
    unfold Voice.atReading
    rw [if_pos hclock]
  have hstart : (((keyOn v).prepare input).refill m).phase = 0 := hphase
  have hdecoded : (((keyOn v).prepare input).refill m).toDecoder =
      nextBlock m ((keyOn v).prepare input).toDecoder := rfl
  rw [hrefill]
  refine ⟨⟨?_, ?_, ?_, Or.inl ?_⟩, hstart⟩
  · rw [hdecoded, hdecoder]
    exact (blockStream_succ m _ 0).symm
  · rw [hstart]
    rfl
  · exact Nat.zero_lt_succ _
  · rw [hstart]
    norm_num

theorem needsClock_of_end {v : Voice} (h : spuBlockSamples ≤ v.sampleIdx) : v.needsClock = true := by
  simp [Voice.needsClock, h]

/-- Every reading, and the step behind it. -/
theorem reads_and_steps (m : SampleMemory) (v : Voice) (input : ℕ → PitchInput) (k : ℕ) :
    Reads m (keyOn v).toDecoder (pitchSum input k) (readingAt m v input k) ∧
      Stepped m (keyOn v).toDecoder (pitchSum input k) ((input k).pitch.toNat % 0x4000)
        (playPitches m v input (k + 1)) := by
  have hstep : ∀ k, Reads m (keyOn v).toDecoder (pitchSum input k) (readingAt m v input k) →
      (((playPitches m v input k).prepare (input k)).needsClock = false →
        ((playPitches m v input k).prepare (input k)).phase < 4096) →
      Stepped m (keyOn v).toDecoder (pitchSum input k) ((input k).pitch.toNat % 0x4000)
        (playPitches m v input (k + 1)) := by
    intro k hreads hquiet
    have h := Reads.next hreads (input k).noise hquiet
    rw [(prepare_frame _ _).2.2.2] at h
    exact h
  induction k with
  | zero =>
    have hreads := (keyOn_reading m v (input 0)).1
    refine ⟨hreads, hstep 0 hreads fun hclock => ?_⟩
    have hend : spuBlockSamples ≤ ((keyOn v).prepare (input 0)).sampleIdx := by
      rw [(prepare_frame (keyOn v) (input 0)).2.1]
      exact le_refl _
    exact absurd ((needsClock_of_end hend).symm.trans hclock) (by decide)
  | succ k ih =>
    have hprepared := ih.2.prepare (input (k + 1))
    have hreads := hprepared.reading.1
    refine ⟨hreads, hstep (k + 1) hreads fun hclock => ?_⟩
    rcases hprepared.place with ⟨-, hphase⟩ | ⟨hend, -⟩
    · exact hphase
    · exact absurd ((needsClock_of_end hend.ge).symm.trans hclock) (by decide)

/-! ## Exactness -/

/-- The sample is read where the pitches say: the blocks decoded once and in order, the place in
the block, the fraction, and the interpolation of the stream there. -/
structure ExactReading (m : SampleMemory) (start : Decoder) (total : ℕ) (v : Voice) : Prop where
  blocks : v.toDecoder = blockStream m start (blockOf total + 1)
  position : v.sampleIdx = total / 4096 % spuBlockSamples
  fraction : v.phase = total % 4096
  value : spuGaussianInterpolate v.previousSamples v.samples v.sampleIdx v.phase =
    streamInterpolate m start (total / 4096) (total % 4096)

/-- A reading is exact when no whole sample is left in the phase. -/
theorem Reads.exact_iff {m : SampleMemory} {start : Decoder} (hstart : ∀ i, start.samples i = 0)
    {total : ℕ} {v : Voice} (h : Reads m start total v) :
    ExactReading m start total v ↔ v.phase < 4096 := by
  have hposition := h.position
  have hin := h.inBlock
  constructor
  · intro hexact
    rw [hexact.fraction]
    exact Nat.mod_lt _ (by norm_num)
  · intro hsmall
    have hplace : v.sampleIdx = total / 4096 % spuBlockSamples := by
      unfold blockOf spuBlockSamples at *
      omega
    have hfraction : v.phase = total % 4096 := by
      unfold blockOf spuBlockSamples at *
      omega
    refine ⟨h.blocks, hplace, hfraction, ?_⟩
    have hwindow := @interpolate_stream m start hstart (blockOf total) v.sampleIdx v.phase
      (total % 4096) hin (by rw [hfraction])
    rw [← h.blocks] at hwindow
    rw [hwindow, hplace]
    unfold blockOf
    rw [Nat.div_add_mod]

/-- Sample `k` is read where the pitches before it say unless its step crossed the end of a block
and went beyond the first sample of the next. -/
theorem pitch_stepping_exact_iff (m : SampleMemory) (v : Voice) (input : ℕ → PitchInput) (k : ℕ) :
    ExactReading m (keyOn v).toDecoder (pitchSum input k) (readingAt m v input k) ↔
      k = 0 ∨ blockOf (pitchSum input k) = blockOf (pitchSum input (k - 1)) ∨
        pitchSum input k / 4096 % spuBlockSamples = 0 := by
  have hstart : ∀ i, (keyOn v).toDecoder.samples i = 0 := fun i => rfl
  have hreads := (reads_and_steps m v input k).1
  rw [hreads.exact_iff hstart]
  cases k with
  | zero =>
    have hzero : (readingAt m v input 0).phase = 0 := (keyOn_reading m v (input 0)).2
    rw [hzero]
    simp
  | succ k =>
    obtain ⟨-, hsame, hcrossed⟩ :=
      ((reads_and_steps m v input k).2.prepare (input (k + 1))).reading
    have hposition := hreads.position
    rw [Nat.add_sub_cancel]
    by_cases hblock : blockOf (pitchSum input (k + 1)) = blockOf (pitchSum input k)
    · exact iff_of_true (hsame hblock) (Or.inr (Or.inl hblock))
    · have hfirst : (readingAt m v input (k + 1)).sampleIdx = 0 := hcrossed hblock
      have hcarried := hreads.carried
      rw [hfirst] at hposition hcarried
      unfold blockOf spuBlockSamples at *
      omega

/-- Silence at the pitch 3: sample 10 is sample 30 of the stream, and is read at the start of the
second block with two samples still in the phase. -/
theorem pitch_stepping_leaves_samples :
    let silence : SampleMemory := ⟨fun _ => 0, fun _ => none⟩
    let slot : Voice := keyOn ⟨⟨0, 0, 0, fun _ => 0, fun _ => 0, 0, 0, 0⟩, ⟨0, 0, .release⟩,
      false, 0, 0, 0, fun _ => 0, false⟩
    let input : ℕ → PitchInput := fun _ => ⟨0x3000, 0, 0, none, false⟩
    (playPitches silence slot input 10).active = true ∧
      (readingAt silence slot input 10).phase = 0x2000 ∧
      ¬ ExactReading silence (keyOn slot).toDecoder (pitchSum input 10)
        (readingAt silence slot input 10) := by
  intro silence slot input
  have hphase : (readingAt silence slot input 10).phase = 0x2000 := by decide
  refine ⟨by decide, hphase, fun hexact => ?_⟩
  have hfraction := hexact.fraction
  rw [hphase] at hfraction
  exact absurd hfraction (by decide)

end PsxRecomp.Spu
