import Mathlib
import PsxRecomp.Mmio.Lanes

/-! Stores narrower than a register, and with the reads what an access width changes. -/
namespace PsxRecomp.Mmio
set_option autoImplicit false

-- Literals of the index type find this by name, so that a definition holds no proof of its own.
scoped instance neZero_three : NeZero 3 := ⟨by decide⟩

variable {ω : Type} {addr : Word} {dev : Devices ω} {s : Registers ω} {r : Region}

/-! ## Routing -/

/-- What a word write to a merged register does. -/
def Region.store (r : Region) (addr val : Word) (s : Registers ω) : Registers ω :=
  match r with
  | .memCtrl => setMemCtrl addr val s
  | .ramSize => { s with ramSize := val }
  | .iMask => setIrq (Interrupts.writeMaskMasked val 0xFFFFFFFF) s
  | .timer => timersWrite (aligned addr) val s
  | _ => s

theorem write32_store (h : r.Has addr) (hmerged : r.merged) (val : Word) :
    mmioWrite32 dev (aligned addr) val s = r.store addr val (dev.sync s) := by
  have ha := aligned_toNat addr
  unfold mmioWrite32
  rcases hmerged with rfl | rfl | rfl | rfl <;> obtain ⟨hlo, hhi⟩ := h <;>
    simp only [Region.first, Region.last] at hlo hhi <;>
    simp (disch := first | bv_omega | fail) only [if_neg, if_pos]
  · rw [setMemCtrl, memCtrlIndex_aligned ⟨hlo, hhi⟩]
    rfl
  all_goals rfl

/-- The word that a narrow store stands for. -/
def Region.put (r : Region) (w : Width) (addr : Word) (val : BitVec w.bits) (s : Registers ω) : Word :=
  w.put addr (r.stored addr s) val

theorem setIrq_congr {f g : Interrupts.Machine → Interrupts.Machine} (h : f s.irq = g s.irq) :
    setIrq f s = setIrq g s := by
  rw [setIrq, setIrq, h]

theorem write8_store (h : r.Has addr) (hmerged : r.merged) (val : Byte) :
    mmioWrite8 dev addr val s = r.store addr (r.put .byte addr val (dev.sync s)) (dev.sync s) := by
  unfold mmioWrite8
  rcases hmerged with rfl | rfl | rfl | rfl <;> obtain ⟨hlo, hhi⟩ := h <;>
    simp only [Region.first, Region.last] at hlo hhi <;>
    simp (disch := first | bv_omega | fail) only [if_neg, if_pos, byteShift_eq]
  · rfl
  · rfl
  · have hones : (0xFF : Word) = (BitVec.allOnes 8).setWidth 32 := by decide
    rw [hones]
    exact setIrq_congr (writeMask_lane .byte addr val (dev.sync s).irq)
  · rw [timersWrite_afterRead, timersRead_value]
    rfl

/-- A halfword at the upper half of a register of a timer is not stored. -/
theorem timersWrite_between (h : Region.timer.Has addr) (hodd : addr.toNat % 4 ≠ 0) (val : Word)
    (s : Registers ω) : timersWrite addr val s = s := by
  have hreg := timerReg_eq h
  obtain ⟨hlo, hhi⟩ := h
  simp only [Region.first, Region.last] at hlo hhi
  unfold timersWrite
  split
  · dsimp only
    split
    · omega
    · omega
    · omega
    · rfl
  · rfl

theorem write16_store (h : r.Has addr) (hmerged : r.merged) (heven : addr.toNat % 2 = 0) (val : Half) :
    (r = .timer → addr.toNat % 4 = 0) →
      mmioWrite16 dev addr val s = r.store addr (r.put .half addr val (dev.sync s)) (dev.sync s) := by
  intro hwhole
  have hhas := h
  unfold mmioWrite16
  rcases hmerged with rfl | rfl | rfl | rfl <;> obtain ⟨hlo, hhi⟩ := h <;>
    simp only [Region.first, Region.last] at hlo hhi <;>
    simp (disch := first | bv_omega | fail) only [if_neg, if_pos, halfShift_mul, halfShift_eq, putHalf_eq]
  · rfl
  · rfl
  · have hones : (0xFFFF : Word) = (BitVec.allOnes 16).setWidth 32 := by decide
    rw [hones]
    exact setIrq_congr (writeMask_lane .half addr val (dev.sync s).irq)
  · have hself := aligned_self (hwhole rfl)
    have hshift : Width.half.shift addr = 0 := by
      have := hwhole rfl
      simp only [Width.shift]
      omega
    rw [Region.store, hself]
    refine timersWrite_low ?_ addr _
    have hlane := Width.half.lane_put addr (timerWord addr (dev.sync s)) val
    rw [Width.lane, hshift] at hlane
    simp only [BitVec.ushiftRight_zero] at hlane
    exact (BitVec.setWidth_setWidth_of_le val (by decide)).trans hlane.symm

/-! ## The modes of the timers -/

/-- The timer at an address. -/
def timerOn (addr : Word) (s : Registers ω) : Timers.Timer := s.timers (Fin.ofNat 3 (timerOf (aligned addr)))

def modeFlags : Word := Timers.modeTargetFlag ||| Timers.modeOverflowFlag

theorem Region.Has.aligned (h : Region.timer.Has addr) : Region.timer.Has (aligned addr) := by
  have ha := aligned_toNat addr
  obtain ⟨hlo, hhi⟩ := h
  simp only [Region.first, Region.last] at hlo hhi
  constructor
  · show 0x1F801100 ≤ _
    omega
  · show _ ≤ 0x1F80112F
    omega

theorem setTimer_other {t t' : Fin 3} (h : t ≠ t') (tm : Timers.Timer) (s : Registers ω) :
    (setTimer t' tm s).timers t = s.timers t := by
  simp [setTimer, h]

theorem timersWrite_mode (h : Region.timer.Has addr) (hreg : timerReg (aligned addr) = 4) (val : Word) :
    timersWrite (aligned addr) val s =
      setTimer (Fin.ofNat 3 (timerOf (aligned addr))) (rearm val (timerOn addr s)) s := by
  have hlt := timerOf_lt h.aligned
  have hfin : (⟨timerOf (aligned addr), hlt⟩ : Fin 3) = Fin.ofNat 3 (timerOf (aligned addr)) :=
    Fin.ext (Nat.mod_eq_of_lt hlt).symm
  rw [timersWrite, dif_pos hlt, hreg, timerOn, ← hfin]
  rfl

/-- Writes to the other registers leave every mode. -/
theorem timersWrite_modes (hreg : timerReg addr ≠ 4) (val : Word) (t : Fin 3) :
    ((timersWrite addr val s).timers t).mode = (s.timers t).mode := by
  have hset : ∀ (t' : Fin 3) (tm : Timers.Timer), tm.mode = (s.timers t').mode →
      ((setTimer t' tm s).timers t).mode = (s.timers t).mode := by
    intro t' tm htm
    by_cases ht : t = t'
    · rw [ht, setTimer_timers, htm]
    · rw [setTimer_other ht]
  unfold timersWrite
  split
  · dsimp only
    split
    · exact hset _ _ rfl
    · contradiction
    · exact hset _ _ rfl
    · rfl
  · rfl

/-- To write a register back is to do nothing, except that a mode rearms its timer. -/
theorem timersWrite_stored (h : Region.timer.Has addr) :
    timersWrite (aligned addr) (timerWord addr s) s = s ↔
      (timerReg (aligned addr) = 4 → Rearmed (timerOn addr s)) := by
  have hlt := timerOf_lt h.aligned
  by_cases hreg : timerReg (aligned addr) = 4
  · have hword : timerWord addr s = (timerOn addr s).mode := by
      have hfin : (⟨timerOf (aligned addr), hlt⟩ : Fin 3) = Fin.ofNat 3 (timerOf (aligned addr)) :=
        Fin.ext (Nat.mod_eq_of_lt hlt).symm
      rw [timerWord, dif_pos hlt, hreg, timerOn, ← hfin]
      rfl
    rw [timersWrite_mode h hreg, setTimer_inj, hword]
    exact (rearm_eq_self _).trans ⟨fun hr _ => hr, fun hr => hr hreg⟩
  · refine iff_of_true ?_ fun hmode => absurd hmode hreg
    have hback : ∀ c : Half, ((c.setWidth 32 : Word) &&& 0xFFFF).setWidth 16 = c := by
      intro c
      refine BitVec.eq_of_toNat_eq ?_
      rw [BitVec.toNat_setWidth, BitVec.toNat_and, BitVec.toNat_setWidth]
      have hmask : ∀ n : ℕ, n &&& 65535 = n % 65536 := fun n => Nat.and_two_pow_sub_one_eq_mod n 16
      have hc := c.isLt
      show (c.toNat % 2 ^ 32 &&& 65535) % 2 ^ 16 = c.toNat
      rw [hmask]
      omega
    unfold timersWrite timerWord
    rw [dif_pos hlt, dif_pos hlt]
    dsimp only
    by_cases hcounter : timerReg (aligned addr) = 0
    · simp only [hcounter, hback]
      exact setTimer_self _ s
    · by_cases htarget : timerReg (aligned addr) = 8
      · simp only [htarget, hback]
        exact setTimer_self _ s
      · split
        · next hr => exact absurd hr hcounter
        · next hr => exact absurd hr hreg
        · next hr => exact absurd hr htarget
        · rfl

theorem timersWrite_flags (h : Region.timer.Has addr) (val : Word) :
    (∀ t, ((timersWrite (aligned addr) val s).timers t).mode &&& modeFlags = (s.timers t).mode &&& modeFlags) ↔
      (timerReg (aligned addr) = 4 → (timerOn addr s).mode &&& modeFlags = 0) := by
  by_cases hreg : timerReg (aligned addr) = 4
  · have hclear : (rearm val (timerOn addr s)).mode &&& modeFlags = 0 := by
      have hlow : (0x03FF : Word) &&& modeFlags = 0 := by decide
      have hrequest : Timers.modeIrqRequest &&& modeFlags = 0 := by decide
      rw [rearm, BitVec.and_or_distrib_right, BitVec.and_assoc, hlow, hrequest]
      simp
    rw [timersWrite_mode h hreg]
    constructor
    · intro hkept _
      have hthis := hkept (Fin.ofNat 3 (timerOf (aligned addr)))
      rw [setTimer_timers, hclear] at hthis
      exact hthis.symm
    · intro hzero t
      by_cases ht : t = Fin.ofNat 3 (timerOf (aligned addr))
      · rw [ht, setTimer_timers, hclear]
        exact (hzero hreg).symm
      · rw [setTimer_other ht]
  · refine iff_of_true (fun t => ?_) fun hmode => absurd hmode hreg
    rw [timersWrite_modes hreg]

/-! ## What the width changes -/

/-- A halfword store to the upper half of a mode. -/
def OnUpperMode (r : Region) (w : Width) (addr : Word) : Prop :=
  r = .timer ∧ w = .half ∧ addr.toNat % 4 = 2 ∧ timerReg (aligned addr) = 4

/-- Any other store to a mode. -/
def OnMode (r : Region) (w : Width) (addr : Word) : Prop :=
  r = .timer ∧ timerReg (aligned addr) = 4 ∧ ¬(w = .half ∧ addr.toNat % 4 = 2)

/-- The upper half of a timer's register takes no store, and a word write stores nothing there either. -/
theorem mmioWrite_upper (h : Region.timer.Has addr) (hupper : addr.toNat % 4 = 2) (val : Half) :
    mmioWrite16 dev addr val s = dev.sync s := by
  obtain ⟨hlo, hhi⟩ := h
  simp only [Region.first, Region.last] at hlo hhi
  unfold mmioWrite16
  dsimp only
  rw [if_neg (by bv_omega), if_neg (by bv_omega), if_neg (by bv_omega), if_neg (by bv_omega),
    if_neg (by bv_omega), if_pos (by bv_omega)]
  exact timersWrite_between ⟨hlo, hhi⟩ (by omega) _ _

theorem store_upper (h : Region.timer.Has addr) (hupper : addr.toNat % 4 = 2) (val : Half) :
    Region.timer.store addr (Region.timer.put .half addr val s) s = s ↔
      (timerReg (aligned addr) = 4 → Rearmed (timerOn addr s)) := by
  have hshift : Width.half.shift addr = 16 := by
    simp only [Width.shift]
    omega
  have hlow : (Width.half.put addr (timerWord addr s) val).setWidth 16 = (timerWord addr s).setWidth 16 := by
    refine BitVec.eq_of_getLsbD_eq fun i hi => ?_
    simp only [BitVec.getLsbD_setWidth, hi, decide_true, Bool.true_and]
    exact Width.half.put_outside addr _ val (Or.inl (by omega))
  have hsame := timersWrite_low hlow (aligned addr) s
  rw [← timersWrite_stored h, ← hsame]
  rfl

/-- A narrow store is the word write of the merged word, except at the upper half of a mode: there the
word write rearms the timer, and the store does nothing. -/
theorem narrow_store (h : r.Has addr) (hmerged : r.merged) {w : Width} (hw : w.Fits addr) (val : BitVec w.bits) :
    mmioWrite dev w addr val s = mmioWrite32 dev (aligned addr) (r.put w addr val (dev.sync s)) s ↔
      (OnUpperMode r w addr → Rearmed (timerOn addr (dev.sync s))) := by
  rw [write32_store h hmerged]
  cases w with
  | byte => exact iff_of_true (write8_store h hmerged val) fun hup => absurd hup.2.1 (by decide)
  | half =>
    by_cases hupper : r = .timer ∧ addr.toNat % 4 = 2
    · obtain ⟨rfl, htwo⟩ := hupper
      have hstore : mmioWrite dev .half addr val s = dev.sync s := mmioWrite_upper h htwo val
      rw [hstore, eq_comm, store_upper h htwo val]
      exact ⟨fun hr hup => hr hup.2.2.2, fun hr hmode => hr ⟨rfl, rfl, htwo, hmode⟩⟩
    · refine iff_of_true (write16_store h hmerged hw val fun htimer => ?_) fun hup => absurd ⟨hup.1, hup.2.2.1⟩ hupper
      have hne : addr.toNat % 4 ≠ 2 := fun htwo => hupper ⟨htimer, htwo⟩
      have heven : addr.toNat % 2 = 0 := hw
      omega

/-- A store clears the flags of a mode only as the word write of that mode does. -/
theorem store_flags (h : r.Has addr) (hmerged : r.merged) {w : Width} (hw : w.Fits addr) (val : BitVec w.bits) :
    (∀ t, ((mmioWrite dev w addr val s).timers t).mode &&& modeFlags =
        ((dev.sync s).timers t).mode &&& modeFlags) ↔
      (OnMode r w addr → (timerOn addr (dev.sync s)).mode &&& modeFlags = 0) := by
  by_cases hupper : r = .timer ∧ w = .half ∧ addr.toNat % 4 = 2
  · obtain ⟨rfl, rfl, htwo⟩ := hupper
    refine iff_of_true (fun t => ?_) fun hmode => absurd ⟨rfl, htwo⟩ hmode.2.2
    have hstore : mmioWrite dev .half addr val s = dev.sync s := mmioWrite_upper h htwo val
    rw [hstore]
  · have hstore : mmioWrite dev w addr val s = r.store addr (r.put w addr val (dev.sync s)) (dev.sync s) := by
      rw [(narrow_store h hmerged hw val).2 fun hup => absurd ⟨hup.1, hup.2.1, hup.2.2.1⟩ hupper,
        write32_store h hmerged]
    rw [hstore]
    by_cases htimer : r = .timer
    · subst htimer
      have hflags := timersWrite_flags (s := dev.sync s) h (Region.timer.put w addr val (dev.sync s))
      refine hflags.trans ⟨fun hz hmode => hz hmode.2.1, fun hz hreg => hz ⟨rfl, hreg, ?_⟩⟩
      exact fun hhalf => hupper ⟨rfl, hhalf⟩
    · refine iff_of_true (fun t => ?_) fun hmode => absurd hmode.1 htimer
      cases r <;> first | rfl | exact absurd rfl htimer

/-- What the width of an access changes: a read without a row of its own finds zero in its lane, and the
upper half of a timer's mode takes no store. -/
theorem access_width (dev : Devices ω) (s : Registers ω) {r : Region} {addr : Word} (h : r.Has addr) {w : Width}
    (hw : w.Fits addr) :
    ((mmioRead dev w addr s).2 = w.lane addr (mmioRead32 dev (aligned addr) s).2 ↔
      (¬r.routed w addr → w.lane addr (r.stored addr (dev.sync s)) = 0)) ∧
    (r.merged → ∀ val : BitVec w.bits,
      (mmioWrite dev w addr val s = mmioWrite32 dev (aligned addr) (r.put w addr val (dev.sync s)) s ↔
        (OnUpperMode r w addr → Rearmed (timerOn addr (dev.sync s)))) ∧
      ((∀ t, ((mmioWrite dev w addr val s).timers t).mode &&& modeFlags =
          ((dev.sync s).timers t).mode &&& modeFlags) ↔
        (OnMode r w addr → (timerOn addr (dev.sync s)).mode &&& modeFlags = 0))) :=
  ⟨narrow_read h hw, fun hmerged val => ⟨narrow_store h hmerged hw val, store_flags h hmerged hw val⟩⟩

/-- Devices that nothing happens to. -/
def quietDevices : Devices Unit where
  sync := id
  sioTick := id
  sioRead := fun _ s => (s, 0)
  cdromRead := fun _ s => (s, 0)
  gpuReadGpuread := fun s => (s, 0)
  mdecRead := fun _ s => (s, 0)
  spuRead := fun _ s => (s, 0)
  sioWrite := fun _ _ s => s
  dmaWriteMasked := fun _ _ _ s => s
  cdromWrite := fun _ _ s => s
  gpuWriteGp0 := fun _ s => s
  gpuWriteGp1 := fun _ s => s
  mdecWrite := fun _ _ s => s
  spuWrite := fun _ _ s => s

/-- Timer 0 with a target of 5. -/
def targetFive : Registers Unit where
  memCtrl := fun _ => 0
  ramSize := 0
  irq := Interrupts.powerOn
  timers := fun _ => ⟨0, 0, 5, 0, 0⟩
  dma := (Dma.dmaInit ()).core
  gpu := default
  renderPass := false

/-- A halfword read has a row for the target and finds it. -/
theorem access_width_target :
    (mmioRead quietDevices .half 0x1F801108 targetFive).2 =
      Width.half.lane 0x1F801108 (mmioRead32 quietDevices (aligned 0x1F801108) targetFive).2 := by
  have hhas : Region.timer.Has 0x1F801108 := by
    constructor <;> decide
  have heven : Width.half.Fits 0x1F801108 := by
    show BitVec.toNat (0x1F801108 : Word) % 2 = 0
    decide
  refine (access_width quietDevices targetFive hhas heven).1.2 fun hno => absurd ?_ hno
  exact ⟨rfl, by decide⟩

/-- A byte read has none. -/
theorem timer_byte_lost :
    (mmioRead quietDevices .byte 0x1F801108 targetFive).2 ≠
      Width.byte.lane 0x1F801108 (mmioRead32 quietDevices (aligned 0x1F801108) targetFive).2 := by
  decide

end PsxRecomp.Mmio
