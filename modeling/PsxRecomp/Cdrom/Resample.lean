import Mathlib
import PsxRecomp.Library.MachineWord

/-! `xa_resample_to_44100`: XA audio between its own rate and that of the mixer. -/
namespace PsxRecomp.Cdrom
open MachineWord
set_option autoImplicit false

/-! ## The loop -/

/-- A stereo frame, left and right. -/
abbrev StereoFrame := BitVec 16 × BitVec 16

/-- `in_pos` and `phase` -/
structure Cursor where
  inPos : ℕ
  phase : ℕ
deriving DecidableEq

/-- `while (phase >= 44100)` -/
def Cursor.carry (inPos phase : ℕ) : Cursor :=
  if 44100 ≤ phase then Cursor.carry (inPos + 1) (phase - 44100) else ⟨inPos, phase⟩
termination_by phase

def Cursor.step (rate : ℕ) (c : Cursor) : Cursor := .carry c.inPos (c.phase + rate)

/-- One channel of a frame, in the 32-bit arithmetic of the source. -/
def interpolate (cur next : BitVec 16) (phase : ℕ) : BitVec 16 :=
  let c := cur.signExtend 32
  (c + ((next.signExtend 32 - c) * BitVec.ofNat 32 phase).sdiv 44100).setWidth 16

section Loop
variable (input : List StereoFrame) (rate : ℕ)

def curFrame (pos : ℕ) : StereoFrame := input.getD pos 0
def nextFrame (pos : ℕ) : StereoFrame := input.getD (if pos + 1 < input.length then pos + 1 else pos) 0

def outFrame (c : Cursor) : StereoFrame :=
  let cur := curFrame input c.inPos
  let next := nextFrame input c.inPos
  (interpolate cur.1 next.1 c.phase, interpolate cur.2 next.2 c.phase)

/-- The loop, with the frames that are left of `max_frames`. -/
def resampleLoop : ℕ → Cursor → List StereoFrame
  | 0, _ => []
  | left + 1, c =>
    if c.inPos < input.length then outFrame input c :: resampleLoop left (c.step rate) else []

def xaResampleTo44100 (maxFrames : ℕ) : List StereoFrame :=
  if input = [] ∨ rate = 0 ∨ maxFrames = 0 then [] else resampleLoop input rate maxFrames ⟨0, 0⟩

/-- The cursor before the frame `k` is written. -/
def cursorAt (k : ℕ) : Cursor := (Cursor.step rate)^[k] ⟨0, 0⟩

/-- `ceil(in_frames * 44100 / sample_rate)` -/
def fullFrames : ℕ := (input.length * 44100 + rate - 1) / rate

/-! ## What is claimed of it -/

/-- The values the source computes for one channel, over the integers. -/
def intermediates (cur next : BitVec 16) (phase : ℕ) : List ℤ :=
  let difference := next.toInt - cur.toInt
  let quotient := (difference * phase).tdiv 44100
  [difference, difference * phase, quotient, cur.toInt + quotient]

def Between (cur next out : BitVec 16) : Prop :=
  min cur.toInt next.toInt ≤ out.toInt ∧ out.toInt ≤ max cur.toInt next.toInt

/-- The number of frames, and every one an interpolation within 32 bits. -/
structure Interpolates (maxFrames : ℕ) : Prop where
  count : (xaResampleTo44100 input rate maxFrames).length = min maxFrames (fullFrames input rate)
  between : ∀ k f, (xaResampleTo44100 input rate maxFrames)[k]? = some f →
    Between (curFrame input (cursorAt rate k).inPos).1 (nextFrame input (cursorAt rate k).inPos).1 f.1 ∧
      Between (curFrame input (cursorAt rate k).inPos).2 (nextFrame input (cursorAt rate k).inPos).2 f.2
  fits : ∀ k < (xaResampleTo44100 input rate maxFrames).length, ∀ channel ∈ [Prod.fst, Prod.snd],
    ∀ v ∈ intermediates (channel (curFrame input (cursorAt rate k).inPos))
      (channel (nextFrame input (cursorAt rate k).inPos)) (cursorAt rate k).phase, -2 ^ 31 ≤ v ∧ v < 2 ^ 31

/-- Where a frame lies six sevenths between two samples, these are at most 56811 apart. -/
def SwingsFit (maxFrames : ℕ) : Prop :=
  ∀ k < min maxFrames (fullFrames input rate), k * rate % 44100 = 37800 →
    ∀ channel ∈ [Prod.fst, Prod.snd], |(channel (nextFrame input (k * rate / 44100))).toInt -
      (channel (curFrame input (k * rate / 44100))).toInt| ≤ 56811

end Loop

/-! ## The cursor -/

theorem carry_eq (inPos phase : ℕ) : Cursor.carry inPos phase = ⟨inPos + phase / 44100, phase % 44100⟩ := by
  induction inPos, phase using Cursor.carry.induct with
  | case1 inPos phase hle ih =>
    rw [Cursor.carry, if_pos hle, ih, Cursor.mk.injEq]
    omega
  | case2 inPos phase hlt =>
    rw [Cursor.carry, if_neg hlt, Cursor.mk.injEq]
    omega

theorem cursorAt_eq (rate k : ℕ) : cursorAt rate k = ⟨k * rate / 44100, k * rate % 44100⟩ := by
  induction k with
  | zero => simp [cursorAt]
  | succ k ih =>
    have hstep : cursorAt rate (k + 1) = (cursorAt rate k).step rate :=
      Function.iterate_succ_apply' (Cursor.step rate) k ⟨0, 0⟩
    have hsum : (k + 1) * rate = k * rate + rate := Nat.succ_mul k rate
    rw [hstep, ih, Cursor.step, carry_eq, Cursor.mk.injEq, hsum]
    dsimp only
    omega

theorem cursorAt_inside (input : List StereoFrame) {rate : ℕ} (hrate : 0 < rate) (k : ℕ) :
    (cursorAt rate k).inPos < input.length ↔ k < fullFrames input rate := by
  rw [cursorAt_eq, fullFrames, Nat.div_lt_iff_lt_mul (by decide), Nat.lt_div_iff_mul_lt hrate]
  omega

theorem resampleLoop_eq (input : List StereoFrame) {rate : ℕ} (hrate : 0 < rate) (left k : ℕ) :
    resampleLoop input rate left (cursorAt rate k) =
      (List.range' k (min left (fullFrames input rate - k))).map fun i => outFrame input (cursorAt rate i) := by
  induction left generalizing k with
  | zero => simp [resampleLoop]
  | succ left ih =>
    have hstep : (cursorAt rate k).step rate = cursorAt rate (k + 1) :=
      (Function.iterate_succ_apply' (Cursor.step rate) k ⟨0, 0⟩).symm
    have hin := cursorAt_inside input hrate k
    rw [resampleLoop, hstep, ih]
    split
    · rename_i hlt
      have hk := hin.mp hlt
      have hcount : min (left + 1) (fullFrames input rate - k) =
          min left (fullFrames input rate - (k + 1)) + 1 := by omega
      rw [hcount, List.range'_succ, List.map_cons]
    · rename_i hge
      have hk : fullFrames input rate ≤ k := not_lt.mp fun h => hge (hin.mpr h)
      rw [Nat.sub_eq_zero_of_le hk]
      simp

theorem resample_eq (input : List StereoFrame) {rate : ℕ} (hrate : 0 < rate) (maxFrames : ℕ) :
    xaResampleTo44100 input rate maxFrames =
      (List.range (min maxFrames (fullFrames input rate))).map fun k => outFrame input (cursorAt rate k) := by
  unfold xaResampleTo44100
  split
  · rename_i hnone
    have hzero : min maxFrames (fullFrames input rate) = 0 := by
      rcases hnone with rfl | rfl | rfl
      · have hlt : rate - 1 < rate := by omega
        simp [fullFrames, Nat.div_eq_of_lt hlt]
      · omega
      · simp
    rw [hzero]
    rfl
  · have h := resampleLoop_eq input hrate maxFrames 0
    rw [Nat.sub_zero] at h
    rw [List.range_eq_range']
    exact h

/-! ## One sample -/

theorem toInt_bounds16 (x : BitVec 16) : -32768 ≤ x.toInt ∧ x.toInt ≤ 32767 := by
  have hlo := BitVec.le_toInt x
  have hhi := BitVec.toInt_lt (x := x)
  norm_num at hlo hhi
  omega

/-- A truncated share of a difference stays between its ends. -/
theorem share_between (d : ℤ) (p : ℕ) (hp : p < 44100) :
    min 0 d ≤ (d * p).tdiv 44100 ∧ (d * p).tdiv 44100 ≤ max 0 d := by
  rcases le_or_gt 0 d with hd | hd
  · have hprod : 0 ≤ d * p := by positivity
    have hle : d * p ≤ d * 44100 := by nlinarith
    rw [Int.tdiv_eq_ediv_of_nonneg hprod, min_eq_left hd, max_eq_right hd]
    omega
  · obtain ⟨e, rfl⟩ : ∃ e, d = -e := ⟨-d, (neg_neg d).symm⟩
    have he : 0 ≤ e := by omega
    have hprod : 0 ≤ e * p := by positivity
    have hle : e * p ≤ e * 44100 := by nlinarith
    rw [neg_mul, Int.neg_tdiv, Int.tdiv_eq_ediv_of_nonneg hprod, min_eq_right (by omega), max_eq_left (by omega)]
    omega

/-- Without an overflow the source's arithmetic is that of the integers. -/
theorem interpolate_toInt (cur next : BitVec 16) {phase : ℕ} (hphase : phase < 44100)
    (hlo : -2 ^ 31 ≤ (next.toInt - cur.toInt) * phase) (hhi : (next.toInt - cur.toInt) * phase < 2 ^ 31) :
    (interpolate cur next phase).toInt = cur.toInt + ((next.toInt - cur.toInt) * phase).tdiv 44100 := by
  have hc := toInt_bounds16 cur
  have hn := toInt_bounds16 next
  have hshare := share_between (next.toInt - cur.toInt) phase hphase
  obtain ⟨d, hd⟩ : ∃ d, d = next.toInt - cur.toInt := ⟨_, rfl⟩
  rw [← hd] at hlo hhi hshare ⊢
  have hquot : ((next.signExtend 32 - cur.signExtend 32) * BitVec.ofNat 32 phase).sdiv 44100 =
      BitVec.ofInt 32 ((d * phase).tdiv 44100) := by
    have hprod : (next.signExtend 32 - cur.signExtend 32) * BitVec.ofNat 32 phase = BitVec.ofInt 32 (d * phase) := by
      rw [BitVec.signExtend, BitVec.signExtend, ← ofInt_sub, ← hd, BitVec.ofInt_mul, BitVec.ofInt_natCast]
    rw [hprod, ← ofInt_tdiv, BitVec.toInt_ofInt_eq_self (by decide) hlo hhi]
    rfl
  unfold interpolate
  dsimp only
  rw [hquot, BitVec.signExtend, ← BitVec.ofInt_add, setWidth_ofInt (by decide)]
  apply BitVec.toInt_ofInt_eq_self (by decide) <;> norm_num <;> omega

theorem interpolate_between (cur next : BitVec 16) {phase : ℕ} (hphase : phase < 44100)
    (hfits : ∀ v ∈ intermediates cur next phase, -2 ^ 31 ≤ v ∧ v < 2 ^ 31) :
    Between cur next (interpolate cur next phase) := by
  have hprod := hfits _ (List.mem_cons_of_mem _ List.mem_cons_self)
  have hshare := share_between (next.toInt - cur.toInt) phase hphase
  unfold Between
  rw [interpolate_toInt cur next hphase hprod.1 hprod.2]
  omega

/-! ## The law -/

/-- The phases are multiples of a seventh, and only the last of them can overflow. -/
theorem phase_seventh {rate k : ℕ} (hrate : rate = 37800 ∨ rate = 18900) :
    ∃ j < 7, k * rate % 44100 = 6300 * j := by
  rcases hrate with rfl | rfl
  · exact ⟨k * 37800 % 44100 / 6300, by omega, by omega⟩
  · exact ⟨k * 18900 % 44100 / 6300, by omega, by omega⟩

theorem intermediates_fit (cur next : BitVec 16) {j : ℕ} (hj : j < 7)
    (hswing : j = 6 → |next.toInt - cur.toInt| ≤ 56811) :
    ∀ v ∈ intermediates cur next (6300 * j), -2 ^ 31 ≤ v ∧ v < 2 ^ 31 := by
  have hc := toInt_bounds16 cur
  have hn := toInt_bounds16 next
  have hshare := share_between (next.toInt - cur.toInt) (6300 * j) (by omega)
  intro v hv
  simp only [intermediates, List.mem_cons, List.not_mem_nil, or_false] at hv
  rw [abs_le] at hswing
  rcases hv with rfl | rfl | rfl | rfl
  · omega
  · interval_cases j <;> push_cast <;> omega
  · omega
  · omega

theorem resample_linear_iff (input : List StereoFrame) (rate maxFrames : ℕ)
    (hrate : rate = 37800 ∨ rate = 18900) :
    Interpolates input rate maxFrames ↔ SwingsFit input rate maxFrames := by
  have hpos : 0 < rate := by omega
  have hlen : (xaResampleTo44100 input rate maxFrames).length = min maxFrames (fullFrames input rate) := by
    rw [resample_eq input hpos]
    simp
  constructor
  · intro h k hk hphase channel hchannel
    have hfit := h.fits k (hlen ▸ hk) channel hchannel
    rw [cursorAt_eq] at hfit
    dsimp only at hfit
    rw [hphase] at hfit
    have hprod := hfit _ (List.mem_cons_of_mem _ List.mem_cons_self)
    rw [abs_le]
    push_cast at hprod
    omega
  · intro h
    have hfits : ∀ k < min maxFrames (fullFrames input rate), ∀ channel ∈ [Prod.fst, Prod.snd],
        ∀ v ∈ intermediates (channel (curFrame input (cursorAt rate k).inPos))
          (channel (nextFrame input (cursorAt rate k).inPos)) (cursorAt rate k).phase,
          -2 ^ 31 ≤ v ∧ v < 2 ^ 31 := by
      intro k hk channel hchannel
      obtain ⟨j, hj, hphase⟩ := phase_seventh (k := k) hrate
      rw [cursorAt_eq]
      dsimp only
      rw [hphase]
      exact intermediates_fit _ _ hj fun h6 => h k hk (by rw [hphase, h6]) channel hchannel
    refine ⟨hlen, fun k f hf => ?_, fun k hk => hfits k (hlen ▸ hk)⟩
    rw [resample_eq input hpos, List.getElem?_map, Option.map_eq_some_iff] at hf
    obtain ⟨i, hi, rfl⟩ := hf
    obtain ⟨hk, hi⟩ := List.getElem?_eq_some_iff.mp hi
    rw [List.getElem_range] at hi
    subst hi
    rw [List.length_range] at hk
    have hphase : (cursorAt rate k).phase < 44100 := by
      rw [cursorAt_eq]
      exact Nat.mod_lt _ (by decide)
    exact ⟨interpolate_between _ _ hphase (hfits k hk Prod.fst List.mem_cons_self),
      interpolate_between _ _ hphase (hfits k hk Prod.snd (List.mem_cons_of_mem _ List.mem_cons_self))⟩

theorem resample_linear_quiet : Interpolates [(0, 100), (700, -600)] 37800 9408 := by
  refine (resample_linear_iff _ 37800 9408 (.inl rfl)).mpr fun k hk hphase channel hchannel => ?_
  -- only the frame behind the first one lies six sevenths between two samples
  have hk : k < 3 := hk.trans_le ((Nat.min_le_right _ _).trans (by decide))
  obtain rfl : k = 1 := by omega
  rcases List.mem_cons.1 hchannel with rfl | hchannel
  · decide
  · obtain rfl := List.mem_singleton.1 hchannel
    decide

/-- A swing over the whole range: six sevenths of it are 2477223000 / 44100. -/
theorem full_swing_overflows : ¬Interpolates [(-32768, 0), (32767, 0)] 37800 9408 ∧
    xaResampleTo44100 [(-32768, 0), (32767, 0)] 37800 2 = [(-32768, 0), (-8450, 0)] := by
  constructor
  · rw [resample_linear_iff _ 37800 9408 (.inl rfl)]
    intro hfit
    exact absurd (hfit 1 (by decide) rfl Prod.fst List.mem_cons_self) (by decide)
  · rw [resample_eq _ (by decide)]
    simp only [cursorAt_eq]
    decide

end PsxRecomp.Cdrom
