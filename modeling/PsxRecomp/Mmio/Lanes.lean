import PsxRecomp.Mmio.Routing

/-! Accesses narrower than a register: what they read of it, and what they leave of it. -/
namespace PsxRecomp.Mmio
set_option autoImplicit false

variable {ω : Type}

/-! ## Lanes -/

inductive Width where
  | byte
  | half
  deriving DecidableEq

def Width.bits : Width → ℕ
  | .byte => 8
  | .half => 16

/-- Where the lane of an address lies in its word. -/
def Width.shift (w : Width) (addr : Word) : ℕ :=
  match w with
  | .byte => 8 * (addr.toNat % 4)
  | .half => 16 * (addr.toNat / 2 % 2)

/-- Halfwords are accessed at even addresses. -/
def Width.Fits (w : Width) (addr : Word) : Prop :=
  match w with
  | .byte => True
  | .half => addr.toNat % 2 = 0

def Width.lane (w : Width) (addr v : Word) : BitVec w.bits := (v >>> w.shift addr).setWidth w.bits

/-- The word with one lane replaced. -/
def Width.put (w : Width) (addr old : Word) (val : BitVec w.bits) : Word :=
  (old &&& ~~~((BitVec.allOnes w.bits).setWidth 32 <<< w.shift addr)) ||| val.setWidth 32 <<< w.shift addr

theorem Width.fits_word (w : Width) (addr : Word) : w.shift addr + w.bits ≤ 32 := by
  cases w <;> simp only [Width.shift, Width.bits] <;> omega

theorem Width.put_inside (w : Width) (addr old : Word) (val : BitVec w.bits) {i : ℕ} (hi : i < w.bits) :
    (w.put addr old val).getLsbD (w.shift addr + i) = val.getLsbD i := by
  have hfits := w.fits_word addr
  have hlt : w.shift addr + i < 32 := by omega
  simp [Width.put, hlt, hi]

theorem Width.put_outside (w : Width) (addr old : Word) (val : BitVec w.bits) {k : ℕ}
    (hk : k < w.shift addr ∨ w.shift addr + w.bits ≤ k) : (w.put addr old val).getLsbD k = old.getLsbD k := by
  by_cases h32 : k < 32
  · rcases hk with hlow | hhigh
    · simp [Width.put, h32, hlow]
    · have hge : ¬k < w.shift addr := by omega
      have hout : w.bits ≤ k - w.shift addr := by omega
      simp [Width.put, h32, hge, BitVec.getLsbD_of_ge _ _ hout]
  · rw [BitVec.getLsbD_of_ge _ _ (by omega), BitVec.getLsbD_of_ge _ _ (by omega)]

/-- The lane of the new word is the value, and the others are those of the old one. -/
theorem Width.lane_put (w : Width) (addr old : Word) (val : BitVec w.bits) :
    w.lane addr (w.put addr old val) = val := by
  refine BitVec.eq_of_getLsbD_eq fun i hi => ?_
  simp only [Width.lane, BitVec.getLsbD_setWidth, hi, decide_true, Bool.true_and, BitVec.getLsbD_ushiftRight]
  exact w.put_inside addr old val hi

/-! ## Addresses -/

variable {addr : Word}

theorem aligned_toNat (addr : Word) : (aligned addr).toNat = addr.toNat / 4 * 4 := by
  have h : aligned addr = addr >>> (2 : ℕ) <<< (2 : ℕ) := by
    refine BitVec.eq_of_getLsbD_eq fun i hi => ?_
    have hthree : (3 : Word).getLsbD i = decide (i < 2) := by
      have table : ∀ i < 32, (3 : Word).getLsbD i = decide (i < 2) := by decide
      exact table i hi
    simp only [aligned, BitVec.getLsbD_and, BitVec.getLsbD_not, hi, decide_true, Bool.true_and, hthree,
      BitVec.getLsbD_shiftLeft, BitVec.getLsbD_ushiftRight]
    by_cases hlow : i < 2
    · simp [hlow]
    · have hback : 2 + (i - 2) = i := by omega
      simp [hlow, hback]
  rw [h, BitVec.toNat_shiftLeft, BitVec.toNat_ushiftRight, Nat.shiftRight_eq_div_pow, Nat.shiftLeft_eq]
  have := addr.isLt
  omega

theorem and_three (addr : Word) : (addr &&& 3).toNat = addr.toNat % 4 := by
  rw [BitVec.toNat_and]
  exact Nat.and_two_pow_sub_one_eq_mod addr.toNat 2

theorem and_two (addr : Word) : (addr &&& 2).toNat = 2 * (addr.toNat / 2 % 2) := by
  have h2 : (2 : Word) = BitVec.twoPow 32 1 := by decide
  rw [h2, BitVec.and_twoPow]
  have hbit : addr.getLsbD 1 = decide (addr.toNat / 2 % 2 = 1) := by
    rw [BitVec.getLsbD, Nat.testBit_eq_decide_div_mod_eq, pow_one]
  rw [hbit]
  rcases Nat.mod_two_eq_zero_or_one (addr.toNat / 2) with h | h
  · simp [h]
  · simp [h]

theorem byteShift_eq (addr : Word) : byteShift addr = Width.byte.shift addr := by
  rw [byteShift, and_three, Width.shift]

theorem halfShift_eq (addr : Word) : halfShift addr = Width.half.shift addr := by
  have h := and_two addr
  unfold halfShift Width.shift
  rcases Nat.mod_two_eq_zero_or_one (addr.toNat / 2) with h' | h'
  · have hzero : addr &&& 2 = 0 := BitVec.eq_of_toNat_eq (by rw [h, h']; rfl)
    rw [if_neg (not_not.2 hzero), h']
  · have hne : addr &&& 2 ≠ 0 := fun hzero => by
      rw [hzero, h'] at h
      simp at h
    rw [if_pos hne, h']

theorem halfShift_mul (addr : Word) : 8 * (addr &&& 2).toNat = Width.half.shift addr := by
  rw [and_two, Width.shift]
  omega

/-! ## The registers -/

inductive Region where
  | memCtrl
  | ramSize
  | iStat
  | iMask
  | dma
  | timer
  | gpustat
  deriving DecidableEq

def Region.first : Region → ℕ
  | .memCtrl => 0x1F801000
  | .ramSize => 0x1F801060
  | .iStat => 0x1F801070
  | .iMask => 0x1F801074
  | .dma => 0x1F801080
  | .timer => 0x1F801100
  | .gpustat => 0x1F801814

def Region.last : Region → ℕ
  | .memCtrl => 0x1F80103F
  | .ramSize => 0x1F801063
  | .iStat => 0x1F801073
  | .iMask => 0x1F801077
  | .dma => 0x1F8010FF
  | .timer => 0x1F80112F
  | .gpustat => 0x1F801817

def Region.Has (r : Region) (addr : Word) : Prop := r.first ≤ addr.toNat ∧ addr.toNat ≤ r.last

/-- The register of a timer at an address. -/
def timerWord (addr : Word) (s : Registers ω) : Word :=
  if h : timerOf (aligned addr) < 3 then
    match timerReg (aligned addr) with
    | 0x00 => (s.timers ⟨_, h⟩).counter.setWidth 32
    | 0x04 => (s.timers ⟨_, h⟩).mode
    | 0x08 => (s.timers ⟨_, h⟩).target.setWidth 32
    | _ => 0
  else 0

/-- What is stored in the word of an address. -/
def Region.stored (r : Region) (addr : Word) (s : Registers ω) : Word :=
  match r with
  | .memCtrl => s.memCtrl (memCtrlIndex addr)
  | .ramSize => s.ramSize
  | .iStat => s.irq.iStat
  | .iMask => s.irq.iMask
  | .dma => dmaRead (aligned addr) s
  | .timer => timerWord addr s
  | .gpustat => gpuReadGpustat s.gpu

/-- The registers as a read finds them. -/
def Region.found (r : Region) (dev : Devices ω) (s : Registers ω) : Registers ω :=
  if r = .iStat then readStat dev s else s

variable {dev : Devices ω} {s : Registers ω} {r : Region}

theorem memCtrlIndex_aligned (h : Region.memCtrl.Has addr) : memCtrlIndex (aligned addr) = memCtrlIndex addr := by
  obtain ⟨hlo, hhi⟩ := h
  simp only [Region.first, Region.last] at hlo hhi
  have ha := aligned_toNat addr
  have hoff : ((aligned addr - 0x1F801000) >>> (2 : ℕ)).toNat = ((addr - 0x1F801000) >>> (2 : ℕ)).toNat := by
    simp only [BitVec.toNat_ushiftRight, Nat.shiftRight_eq_div_pow]
    bv_omega
  rw [memCtrlIndex, memCtrlIndex, hoff]

theorem timersRead_value (addr : Word) (s : Registers ω) : (timersRead (aligned addr) s).2 = timerWord addr s := by
  unfold timersRead timerWord
  split
  · dsimp only
    split <;> simp_all
  · rfl

theorem read32_stored (h : r.Has addr) :
    (mmioRead32Impl dev (aligned addr) s).2 = r.stored addr (r.found dev s) := by
  obtain ⟨hlo, hhi⟩ := h
  have ha := aligned_toNat addr
  unfold mmioRead32Impl
  -- the bounds of the region decide every branch of the table
  cases r <;> simp only [Region.first, Region.last] at hlo hhi <;>
    simp (disch := first | bv_omega | fail) only [if_neg, if_pos]
  case memCtrl =>
    rw [memCtrlIndex_aligned ⟨hlo, hhi⟩]
    rfl
  case timer => exact timersRead_value addr s
  all_goals rfl

/-- Whether a table of narrow reads has a row for the access. -/
def Region.routed (r : Region) (w : Width) (addr : Word) : Prop :=
  match r with
  | .timer => w = .half ∧ addr.toNat % 4 = 0
  | .gpustat => False
  | _ => True

theorem aligned_self (h : addr.toNat % 4 = 0) : aligned addr = addr := by
  refine BitVec.eq_of_toNat_eq ?_
  rw [aligned_toNat]
  omega

theorem timerReg_eq (h : Region.timer.Has addr) : timerReg addr = (addr.toNat - 0x1F801100) % 16 := by
  obtain ⟨hlo, hhi⟩ := h
  simp only [Region.first, Region.last] at hlo hhi
  have hsub : (addr - timerBase).toNat = addr.toNat - 0x1F801100 := by
    unfold timerBase
    bv_omega
  rw [timerReg, BitVec.toNat_and, hsub]
  exact Nat.and_two_pow_sub_one_eq_mod _ 4

theorem timerOf_lt (h : Region.timer.Has addr) : timerOf addr < 3 := by
  obtain ⟨hlo, hhi⟩ := h
  simp only [Region.first, Region.last] at hlo hhi
  have hsub : (addr - timerBase).toNat = addr.toNat - 0x1F801100 := by
    unfold timerBase
    bv_omega
  rw [timerOf, BitVec.toNat_ushiftRight, Nat.shiftRight_eq_div_pow, hsub]
  omega

/-- Between the registers of a timer there is nothing. -/
theorem timersRead_between (h : Region.timer.Has addr) (hodd : addr.toNat % 4 ≠ 0) (s : Registers ω) :
    (timersRead addr s).2 = 0 := by
  have hreg := timerReg_eq h
  obtain ⟨hlo, hhi⟩ := h
  simp only [Region.first, Region.last] at hlo hhi
  unfold timersRead
  split
  · dsimp only
    split
    · omega
    · omega
    · omega
    · rfl
  · rfl

theorem halfOf_lane (addr v : Word) : halfOf addr v = Width.half.lane addr v := by
  rw [halfOf, halfShift_eq]
  rfl

theorem byteOf_lane (addr v : Word) : byteOf addr v = Width.byte.lane addr v := by
  rw [byteOf, byteShift_eq]
  rfl

theorem read16_value (h : r.Has addr) (heven : addr.toNat % 2 = 0) :
    (r.routed .half addr → (mmioRead16Impl dev addr s).2 = Width.half.lane addr (r.stored addr (r.found dev s))) ∧
      (¬r.routed .half addr → (mmioRead16Impl dev addr s).2 = 0) := by
  have hhas := h
  obtain ⟨hlo, hhi⟩ := h
  unfold mmioRead16Impl
  cases r <;> simp only [Region.first, Region.last] at hlo hhi <;>
    simp (disch := first | bv_omega | fail) only [if_neg, if_pos, halfShift_mul, halfOf_lane]
  case timer =>
    refine ⟨fun hrow => ?_, fun hno => ?_⟩
    · have hself := aligned_self hrow.2
      have hshift : Width.half.shift addr = 0 := by
        have hrow := hrow.2
        simp only [Width.shift]
        omega
      have hvalue := timersRead_value addr s
      rw [hself] at hvalue
      rw [lowHalf, hvalue, Width.lane, hshift]
      rfl
    · have hodd : addr.toNat % 4 ≠ 0 := fun h0 => hno ⟨rfl, h0⟩
      rw [lowHalf, timersRead_between hhas hodd]
      rfl
  case gpustat => exact ⟨fun hrow => hrow.elim, fun _ => trivial⟩
  all_goals exact ⟨fun _ => rfl, fun hno => absurd trivial hno⟩

theorem read8_value (h : r.Has addr) :
    (r.routed .byte addr → (mmioRead8Impl dev addr s).2 = Width.byte.lane addr (r.stored addr (r.found dev s))) ∧
      (¬r.routed .byte addr → (mmioRead8Impl dev addr s).2 = 0) := by
  obtain ⟨hlo, hhi⟩ := h
  unfold mmioRead8Impl
  cases r <;> simp only [Region.first, Region.last] at hlo hhi <;>
    simp (disch := first | bv_omega | fail) only [if_neg, if_pos, byteOf_lane]
  case timer => exact ⟨fun hrow => absurd hrow.1 (by decide), fun _ => trivial⟩
  case gpustat => exact ⟨fun hrow => hrow.elim, fun _ => trivial⟩
  all_goals exact ⟨fun _ => rfl, fun hno => absurd trivial hno⟩

/-! ## Reads -/

def mmioRead (dev : Devices ω) (w : Width) (addr : Word) (s : Registers ω) : Registers ω × BitVec w.bits :=
  match w with
  | .byte => mmioRead8 dev addr s
  | .half => mmioRead16 dev addr s

/-- A render pass may read all of these registers. -/
theorem readAllowed_region (hlo : 0x1F801000 ≤ addr.toNat) (hhi : addr.toNat ≤ 0x1F801817)
    (hsio : addr.toNat < 0x1F801040 ∨ 0x1F801060 ≤ addr.toNat) (hcd : addr.toNat < 0x1F801800 ∨ 0x1F801804 ≤ addr.toNat)
    (s : Registers ω) : readAllowed addr s = true := by
  unfold readAllowed
  simp only [Bool.or_eq_true, Bool.not_eq_true', Bool.or_eq_false_iff, Bool.and_eq_false_iff, decide_eq_false_iff_not]
  right
  refine ⟨⟨⟨?_, ?_⟩, ?_⟩, ?_⟩ <;> bv_omega

theorem Region.Has.allowed (h : r.Has addr) (s : Registers ω) :
    readAllowed addr s = true ∧ readAllowed (aligned addr) s = true := by
  obtain ⟨hlo, hhi⟩ := h
  have ha := aligned_toNat addr
  cases r <;> simp only [Region.first, Region.last] at hlo hhi
  all_goals exact ⟨readAllowed_region (by omega) (by omega) (by omega) (by omega) s,
    readAllowed_region (by omega) (by omega) (by omega) (by omega) s⟩

theorem mmioRead_value (h : r.Has addr) {w : Width} (hw : w.Fits addr) :
    (r.routed w addr → (mmioRead dev w addr s).2 = w.lane addr (r.stored addr (r.found dev (dev.sync s)))) ∧
      (¬r.routed w addr → (mmioRead dev w addr s).2 = 0) := by
  cases w with
  | byte =>
    simp only [mmioRead, mmioRead8, (h.allowed s).1, if_true]
    exact read8_value h
  | half =>
    simp only [mmioRead, mmioRead16, (h.allowed s).1, if_true]
    exact read16_value h hw

theorem Region.found_unrouted {w : Width} (h : ¬r.routed w addr) : r.found dev s = s := by
  unfold Region.found
  rw [if_neg]
  rintro rfl
  exact h trivial

/-- A narrow read returns its lane of the word, except where no row routes it: there it returns zero. -/
theorem narrow_read (h : r.Has addr) {w : Width} (hw : w.Fits addr) :
    (mmioRead dev w addr s).2 = w.lane addr (mmioRead32 dev (aligned addr) s).2 ↔
      (¬r.routed w addr → w.lane addr (r.stored addr (dev.sync s)) = 0) := by
  obtain ⟨hrow, hno⟩ := @mmioRead_value _ _ dev s _ h _ hw
  have hword : (mmioRead32 dev (aligned addr) s).2 = r.stored addr (r.found dev (dev.sync s)) := by
    rw [mmioRead32, if_pos (h.allowed s).2, read32_stored h]
  rw [hword]
  by_cases hrouted : r.routed w addr
  · exact iff_of_true (hrow hrouted) fun hnot => absurd hrouted hnot
  · rw [hno hrouted, Region.found_unrouted hrouted]
    exact ⟨fun heq _ => heq.symm, fun hzero => (hzero hrouted).symm⟩

/-! ## Writes -/

def mmioWrite (dev : Devices ω) (w : Width) (addr : Word) (val : BitVec w.bits) (s : Registers ω) : Registers ω :=
  match w with
  | .byte => mmioWrite8 dev addr val s
  | .half => mmioWrite16 dev addr val s

/-- The registers whose words are merged from their lanes. -/
def Region.merged (r : Region) : Prop := r = .memCtrl ∨ r = .ramSize ∨ r = .iMask ∨ r = .timer

theorem putHalf_eq (addr old : Word) (val : Half) :
    putHalf (Width.half.shift addr) old val = Width.half.put addr old val := by
  have hones : (0xFFFF : Word) = (BitVec.allOnes 16).setWidth 32 := by decide
  rw [putHalf, hones]
  rfl

/-- A masked write of one lane stores the word with that lane replaced. -/
theorem writeMask_lane (w : Width) (addr : Word) (val : BitVec w.bits) (m : Interrupts.Machine) :
    Interrupts.writeMaskMasked (val.setWidth 32 <<< w.shift addr)
        ((BitVec.allOnes w.bits).setWidth 32 <<< w.shift addr) m =
      Interrupts.writeMaskMasked (w.put addr m.iMask val) 0xFFFFFFFF m := by
  have hval : (val.setWidth 32 <<< w.shift addr : Word) &&& (BitVec.allOnes w.bits).setWidth 32 <<< w.shift addr =
      val.setWidth 32 <<< w.shift addr := by
    refine BitVec.eq_of_getLsbD_eq fun i hi => ?_
    by_cases hin : i - w.shift addr < w.bits
    · simp [hi, hin]
      intro h _
      exact h
    · simp [hi, BitVec.getLsbD_of_ge val _ (Nat.not_lt.1 hin)]
  have hfull : ∀ x y : Word, x &&& ~~~0xFFFFFFFF ||| y &&& 0xFFFFFFFF = y := by
    intro x y
    have hones : (0xFFFFFFFF : Word) = BitVec.allOnes 32 := by decide
    rw [hones, BitVec.not_allOnes, BitVec.and_zero, BitVec.zero_or, BitVec.and_allOnes]
  unfold Interrupts.writeMaskMasked
  rw [hval, hfull, Width.put]

/-- A timer as a write to its mode leaves it. -/
structure Rearmed (tm : Timers.Timer) : Prop where
  counter : tm.counter = 0
  irqLine : tm.irqLine = 0
  frac : tm.frac = 0
  mode : (tm.mode &&& 0x03FF) ||| Timers.modeIrqRequest = tm.mode

theorem rearm_eq_self (tm : Timers.Timer) : rearm tm.mode tm = tm ↔ Rearmed tm := by
  constructor
  · intro h
    exact ⟨(congrArg Timers.Timer.counter h).symm, (congrArg Timers.Timer.irqLine h).symm,
      (congrArg Timers.Timer.frac h).symm, congrArg Timers.Timer.mode h⟩
  · rintro ⟨hcounter, hline, hfrac, hmode⟩
    obtain ⟨counter, mode, target, irqLine, frac⟩ := tm
    simp only at hcounter hline hfrac hmode
    simp only [rearm, hcounter, hline, hfrac, hmode]

@[simp] theorem setTimer_self (t : Fin 3) (s : Registers ω) : setTimer t (s.timers t) s = s := by
  simp [setTimer]

@[simp] theorem setTimer_setTimer (t : Fin 3) (tm tm' : Timers.Timer) (s : Registers ω) :
    setTimer t tm (setTimer t tm' s) = setTimer t tm s := by
  simp [setTimer]

@[simp] theorem setTimer_timers (t : Fin 3) (tm : Timers.Timer) (s : Registers ω) :
    (setTimer t tm s).timers t = tm := by
  simp [setTimer]

theorem setTimer_inj {t : Fin 3} {tm : Timers.Timer} : setTimer t tm s = s ↔ tm = s.timers t := by
  constructor
  · intro h
    rw [← h, setTimer_timers]
  · rintro rfl
    exact setTimer_self t s

/-- What the read in front of a byte store changes, the store sets again. -/
theorem timersWrite_afterRead (addr value : Word) (s : Registers ω) :
    timersWrite addr value (timersRead addr s).1 = timersWrite addr value s := by
  unfold timersWrite timersRead
  by_cases h : timerOf addr < 3
  · simp only [h, dif_pos]
    generalize timerReg addr = reg
    match reg with
    | 0x00 => rfl
    | 0x04 => simp [rearm, Timers.Timer.clearBits]
    | 0x08 => rfl
    | 1 | 2 | 3 | 5 | 6 | 7 => rfl
    | n + 9 => rfl
  · simp only [h, dif_neg, not_false_iff]

/-- A timer takes at most the low half of what is written to it. -/
theorem timersWrite_low {v v' : Word} (h : v.setWidth 16 = v'.setWidth 16) (addr : Word) (s : Registers ω) :
    timersWrite addr v s = timersWrite addr v' s := by
  have hbit : ∀ i < 16, v.getLsbD i = v'.getLsbD i := by
    intro i hi
    have hget := congrArg (fun x : Half => x.getLsbD i) h
    simpa [hi] using hget
  have hlow : ∀ m : Word, m &&& 0xFFFF = m → v &&& m = v' &&& m := by
    intro m hm
    refine BitVec.eq_of_getLsbD_eq fun i hi => ?_
    by_cases h16 : i < 16
    · simp [hbit i h16]
    · have hzero : m.getLsbD i = false := by
        have table : ∀ i < 32, ¬i < 16 → (0xFFFF : Word).getLsbD i = false := by decide
        rw [← hm, BitVec.getLsbD_and, table i hi h16, Bool.and_false]
      simp [hzero]
  unfold timersWrite
  rw [hlow 0xFFFF (by decide)]
  have hmode : rearm v = rearm v' := by
    funext tm
    simp only [rearm, hlow 0x03FF (by decide)]
  rw [hmode]

end PsxRecomp.Mmio
