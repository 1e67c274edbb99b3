import Mathlib
import PsxRecomp.Interrupts.Line
import PsxRecomp.Timers.Counter
import PsxRecomp.Dma.Interrupt
import PsxRecomp.Gpu.State

/-! The device registers behind the bus: one routing table for each direction and width. -/
namespace PsxRecomp.Mmio
set_option autoImplicit false

-- Literals of the index type find this by name, so that a definition holds no proof of its own.
scoped instance neZero_sixteen : NeZero 16 := ⟨by decide⟩

abbrev Byte := BitVec 8
abbrev Half := BitVec 16
abbrev Word := BitVec 32

/-! ## State -/

/-- The registers that the tables reach themselves; the other devices are in the world of the DMA core. -/
structure Registers (ω : Type) where
  memCtrl : Fin 16 → Word
  ramSize : Word
  irq : Interrupts.Machine
  timers : Fin 3 → Timers.Timer
  dma : Dma.Core ω
  gpu : Gpu.State
  renderPass : Bool

/-- The other devices, and `psx_devices_mmio_sync` in front of every access. -/
structure Devices (ω : Type) where
  sync : Registers ω → Registers ω
  sioTick : Registers ω → Registers ω
  sioRead : Word → Registers ω → Registers ω × Word
  cdromRead : Word → Registers ω → Registers ω × Word
  gpuReadGpuread : Registers ω → Registers ω × Word
  mdecRead : Word → Registers ω → Registers ω × Word
  spuRead : Word → Registers ω → Registers ω × Word
  sioWrite : Word → Word → Registers ω → Registers ω
  dmaWriteMasked : (addr val mask : Word) → Registers ω → Registers ω
  cdromWrite : Word → Word → Registers ω → Registers ω
  gpuWriteGp0 : Word → Registers ω → Registers ω
  gpuWriteGp1 : Word → Registers ω → Registers ω
  mdecWrite : Word → Word → Registers ω → Registers ω
  spuWrite : Word → Word → Registers ω → Registers ω

variable {ω : Type}

/-! ## The devices of this table -/

def timerBase : Word := 0x1F801100

def timerOf (addr : Word) : ℕ := ((addr - timerBase) >>> (4 : ℕ)).toNat

def timerReg (addr : Word) : ℕ := ((addr - timerBase) &&& 0x0F).toNat

def setTimer (t : Fin 3) (tm : Timers.Timer) (s : Registers ω) : Registers ω :=
  { s with timers := Function.update s.timers t tm }

/-- `timers_read`; reading a mode clears its flags. -/
def timersRead (addr : Word) (s : Registers ω) : Registers ω × Word :=
  if h : timerOf addr < 3 then
    let t : Fin 3 := ⟨timerOf addr, h⟩
    match timerReg addr with
    | 0x00 => (s, (s.timers t).counter.setWidth 32)
    | 0x04 =>
      (setTimer t ((s.timers t).clearBits (Timers.modeTargetFlag ||| Timers.modeOverflowFlag)) s,
        (s.timers t).mode)
    | 0x08 => (s, (s.timers t).target.setWidth 32)
    | _ => (s, 0)
  else (s, 0)

/-- A timer after a write to its mode. -/
def rearm (value : Word) (tm : Timers.Timer) : Timers.Timer :=
  { tm with mode := (value &&& 0x03FF) ||| Timers.modeIrqRequest, counter := 0, irqLine := 0, frac := 0 }

/-- `timers_write` -/
def timersWrite (addr value : Word) (s : Registers ω) : Registers ω :=
  if h : timerOf addr < 3 then
    let t : Fin 3 := ⟨timerOf addr, h⟩
    match timerReg addr with
    | 0x00 => setTimer t { s.timers t with counter := (value &&& 0xFFFF).setWidth 16 } s
    | 0x04 => setTimer t (rearm value (s.timers t)) s
    | 0x08 => setTimer t { s.timers t with target := (value &&& 0xFFFF).setWidth 16 } s
    | _ => s
  else s

/-- `dma_read` -/
def dmaRead (addr : Word) (s : Registers ω) : Word :=
  match Dma.register addr with
  | .dpcr => s.dma.dpcr
  | .dicr => Dma.dicrReadValue s.dma.dicr
  | .madr ch => (s.dma.channels ch).madr
  | .bcr ch => (s.dma.channels ch).bcr
  | .chcr ch => (s.dma.channels ch).chcr
  | .unmapped => 0

/-- `gpu_read_gpustat` -/
def gpuReadGpustat (g : Gpu.State) : Word :=
  let t := g.draw.texpage
  let d := g.display
  (t.x &&& 0xF) ||| (t.y &&& 1) <<< (4 : ℕ) ||| (t.semiTransparency &&& 3) <<< (5 : ℕ) |||
    (t.colors &&& 3) <<< (7 : ℕ) ||| (g.draw.ditherEnabled &&& 1) <<< (9 : ℕ) |||
    (g.draw.drawToDisplay &&& 1) <<< (10 : ℕ) ||| (g.draw.setMaskBit &&& 1) <<< (11 : ℕ) |||
    (g.draw.checkMaskBit &&& 1) <<< (12 : ℕ) ||| (d.interlaceField &&& 1) <<< (13 : ℕ) |||
    (d.reverseFlag &&& 1) <<< (14 : ℕ) ||| (g.draw.textureDisable &&& 1) <<< (15 : ℕ) |||
    (d.hres2 &&& 1) <<< (16 : ℕ) ||| (d.hres1 &&& 3) <<< (17 : ℕ) ||| (d.vres &&& 1) <<< (19 : ℕ) |||
    (d.videoMode &&& 1) <<< (20 : ℕ) ||| (d.displayDepth &&& 1) <<< (21 : ℕ) |||
    (d.verticalInterlace &&& 1) <<< (22 : ℕ) ||| (d.displayDisabled &&& 1) <<< (23 : ℕ) |||
    (d.irq1Flag &&& 1) <<< (24 : ℕ) |||
    (if d.dmaDirection = 1 ∨ d.dmaDirection = 2 ∨ d.dmaDirection = 3 then (1 : Word) <<< (25 : ℕ) else 0) |||
    (1 : Word) <<< (26 : ℕ) ||| (if g.readback.active ≠ 0 then (1 : Word) <<< (27 : ℕ) else 0) |||
    (1 : Word) <<< (28 : ℕ) |||
    (d.dmaDirection &&& 3) <<< (29 : ℕ) ||| (d.lcf &&& 1) <<< (31 : ℕ)

def memCtrlIndex (addr : Word) : Fin 16 := Fin.ofNat 16 ((addr - 0x1F801000) >>> (2 : ℕ)).toNat

/-- `x & ~3` -/
def aligned (addr : Word) : Word := addr &&& ~~~3

/-- `i_stat` after the tick of the serial port that a read brings. -/
def readStat (dev : Devices ω) (s : Registers ω) : Registers ω :=
  if s.renderPass then s else dev.sioTick s

def setMemCtrl (addr value : Word) (s : Registers ω) : Registers ω :=
  { s with memCtrl := Function.update s.memCtrl (memCtrlIndex addr) value }

def setIrq (f : Interrupts.Machine → Interrupts.Machine) (s : Registers ω) : Registers ω :=
  { s with irq := f s.irq }

/-- `render_pass_mmio_read_allowed`: a render pass reads no device whose state it would change. -/
def readAllowed (phys : Word) (s : Registers ω) : Bool :=
  !s.renderPass || !((0x1F801040 ≤ phys && phys ≤ 0x1F80105F) || (0x1F801800 ≤ phys && phys ≤ 0x1F801803) ||
    (0x1F801820 ≤ phys && phys ≤ 0x1F801827) || (0x1F801C00 ≤ phys && phys ≤ 0x1F801FFF))

variable (dev : Devices ω)

/-! ## Words -/

def mmioRead32Impl (addr : Word) (s : Registers ω) : Registers ω × Word :=
  if 0x1F801000 ≤ addr ∧ addr ≤ 0x1F80103C then (s, s.memCtrl (memCtrlIndex addr))
  else if 0x1F801040 ≤ addr ∧ addr ≤ 0x1F80105F then dev.sioRead addr s
  else if addr = 0x1F801060 then (s, s.ramSize)
  else if addr = 0x1F801070 then (readStat dev s, (readStat dev s).irq.iStat)
  else if addr = 0x1F801074 then (s, s.irq.iMask)
  else if 0x1F801080 ≤ addr ∧ addr ≤ 0x1F8010FF then (s, dmaRead addr s)
  else if 0x1F801100 ≤ addr ∧ addr ≤ 0x1F80112F then timersRead addr s
  else if 0x1F801800 ≤ addr ∧ addr ≤ 0x1F801803 then dev.cdromRead addr s
  else if addr = 0x1F801810 then dev.gpuReadGpuread s
  else if addr = 0x1F801814 then (s, gpuReadGpustat s.gpu)
  else if addr = 0x1F801820 ∨ addr = 0x1F801824 then dev.mdecRead addr s
  else if 0x1F801C00 ≤ addr ∧ addr ≤ 0x1F801FFF then dev.spuRead addr s
  else (s, 0)

def mmioRead32 (addr : Word) (s : Registers ω) : Registers ω × Word :=
  if readAllowed addr s then mmioRead32Impl dev addr (dev.sync s) else (s, 0)

def mmioWrite32 (addr val : Word) (s : Registers ω) : Registers ω :=
  let s := dev.sync s
  if 0x1F801000 ≤ addr ∧ addr ≤ 0x1F80103C then setMemCtrl addr val s
  else if 0x1F801040 ≤ addr ∧ addr ≤ 0x1F80105F then dev.sioWrite addr val s
  else if addr = 0x1F801060 then { s with ramSize := val }
  else if addr = 0x1F801070 then setIrq (Interrupts.writeStatMasked val 0xFFFFFFFF) s
  else if addr = 0x1F801074 then setIrq (Interrupts.writeMaskMasked val 0xFFFFFFFF) s
  else if 0x1F801080 ≤ addr ∧ addr ≤ 0x1F8010FF then dev.dmaWriteMasked addr val 0xFFFFFFFF s
  else if 0x1F801100 ≤ addr ∧ addr ≤ 0x1F80112F then timersWrite addr val s
  else if 0x1F801800 ≤ addr ∧ addr ≤ 0x1F801803 then dev.cdromWrite addr val s
  else if addr = 0x1F801810 then dev.gpuWriteGp0 val s
  else if addr = 0x1F801814 then dev.gpuWriteGp1 val s
  else if addr = 0x1F801820 ∨ addr = 0x1F801824 then dev.mdecWrite addr val s
  else if 0x1F801C00 ≤ addr ∧ addr ≤ 0x1F801FFF then dev.spuWrite addr val s
  else s

/-! ## Halfwords -/

/-- `(addr & 2) ? 16 : 0` -/
def halfShift (addr : Word) : ℕ := if addr &&& 2 ≠ 0 then 16 else 0

def lowHalf (r : Registers ω × Word) : Registers ω × Half := (r.1, r.2.setWidth 16)

/-- The halfword of a register at an address. -/
def halfOf (addr v : Word) : Half := (v >>> halfShift addr).setWidth 16

def mmioRead16Impl (addr : Word) (s : Registers ω) : Registers ω × Half :=
  if 0x1F801000 ≤ addr ∧ addr ≤ 0x1F80103F then
    (s, (s.memCtrl (memCtrlIndex addr) >>> (8 * (addr &&& 2).toNat)).setWidth 16)
  else if 0x1F801060 ≤ addr ∧ addr ≤ 0x1F801063 then (s, (s.ramSize >>> (8 * (addr &&& 2).toNat)).setWidth 16)
  else if 0x1F801040 ≤ addr ∧ addr ≤ 0x1F80105F then lowHalf (dev.sioRead addr s)
  else if 0x1F801070 ≤ addr ∧ addr ≤ 0x1F801072 then
    (readStat dev s, halfOf addr (readStat dev s).irq.iStat)
  else if 0x1F801074 ≤ addr ∧ addr ≤ 0x1F801076 then (s, halfOf addr s.irq.iMask)
  else if 0x1F801100 ≤ addr ∧ addr ≤ 0x1F80112F then lowHalf (timersRead addr s)
  else if 0x1F801080 ≤ addr ∧ addr ≤ 0x1F8010FF then (s, halfOf addr (dmaRead (aligned addr) s))
  else if 0x1F801820 ≤ addr ∧ addr ≤ 0x1F801827 then
    let r := dev.mdecRead (aligned addr) s
    (r.1, halfOf addr r.2)
  else if 0x1F801C00 ≤ addr ∧ addr ≤ 0x1F801FFF then lowHalf (dev.spuRead addr s)
  else (s, 0)

def mmioRead16 (addr : Word) (s : Registers ω) : Registers ω × Half :=
  if readAllowed addr s then mmioRead16Impl dev addr (dev.sync s) else (s, 0)

/-- A halfword put into a register. -/
def putHalf (shift : ℕ) (old : Word) (val : Half) : Word :=
  (old &&& ~~~((0xFFFF : Word) <<< shift)) ||| val.setWidth 32 <<< shift

def mmioWrite16 (addr : Word) (val : Half) (s : Registers ω) : Registers ω :=
  let s := dev.sync s
  let shift := halfShift addr
  if 0x1F801000 ≤ addr ∧ addr ≤ 0x1F80103F then
    setMemCtrl addr (putHalf (8 * (addr &&& 2).toNat) (s.memCtrl (memCtrlIndex addr)) val) s
  else if 0x1F801060 ≤ addr ∧ addr ≤ 0x1F801063 then
    { s with ramSize := putHalf (8 * (addr &&& 2).toNat) s.ramSize val }
  else if 0x1F801040 ≤ addr ∧ addr ≤ 0x1F80105F then dev.sioWrite addr (val.setWidth 32) s
  else if 0x1F801070 ≤ addr ∧ addr ≤ 0x1F801072 then
    setIrq (Interrupts.writeStatMasked (val.setWidth 32 <<< shift) ((0xFFFF : Word) <<< shift)) s
  else if 0x1F801074 ≤ addr ∧ addr ≤ 0x1F801076 then
    setIrq (Interrupts.writeMaskMasked (val.setWidth 32 <<< shift) ((0xFFFF : Word) <<< shift)) s
  else if 0x1F801100 ≤ addr ∧ addr ≤ 0x1F80112F then timersWrite addr (val.setWidth 32) s
  else if 0x1F801080 ≤ addr ∧ addr ≤ 0x1F8010FF then
    dev.dmaWriteMasked (aligned addr) (val.setWidth 32 <<< shift) ((0xFFFF : Word) <<< shift) s
  else if 0x1F801820 ≤ addr ∧ addr ≤ 0x1F801827 then
    let r := dev.mdecRead (aligned addr) s
    dev.mdecWrite (aligned addr) (putHalf shift r.2 val) r.1
  else if 0x1F801C00 ≤ addr ∧ addr ≤ 0x1F801FFF then dev.spuWrite addr (val.setWidth 32) s
  else s

/-! ## Bytes -/

/-- `8 * (addr & 3)` -/
def byteShift (addr : Word) : ℕ := 8 * (addr &&& 3).toNat

def byteOf (addr v : Word) : Byte := (v >>> byteShift addr).setWidth 8

def mmioRead8Impl (addr : Word) (s : Registers ω) : Registers ω × Byte :=
  if 0x1F801000 ≤ addr ∧ addr ≤ 0x1F80103F then (s, byteOf addr (s.memCtrl (memCtrlIndex addr)))
  else if 0x1F801060 ≤ addr ∧ addr ≤ 0x1F801063 then (s, byteOf addr s.ramSize)
  else if 0x1F801070 ≤ addr ∧ addr ≤ 0x1F801077 then
    let s := if addr < 0x1F801074 then readStat dev s else s
    (s, byteOf addr (if addr < 0x1F801074 then s.irq.iStat else s.irq.iMask))
  else if 0x1F801040 ≤ addr ∧ addr ≤ 0x1F80104F then
    let r := dev.sioRead (aligned addr) s
    (r.1, r.2.setWidth 8)
  else if 0x1F801080 ≤ addr ∧ addr ≤ 0x1F8010FF then (s, byteOf addr (dmaRead (aligned addr) s))
  else if 0x1F801820 ≤ addr ∧ addr ≤ 0x1F801827 then
    let r := dev.mdecRead (aligned addr) s
    (r.1, byteOf addr r.2)
  else if 0x1F801800 ≤ addr ∧ addr ≤ 0x1F801803 then
    let r := dev.cdromRead addr s
    (r.1, r.2.setWidth 8)
  else (s, 0)

def mmioRead8 (addr : Word) (s : Registers ω) : Registers ω × Byte :=
  if readAllowed addr s then mmioRead8Impl dev addr (dev.sync s) else (s, 0)

/-- A byte put into a register. -/
def putByte (shift : ℕ) (old : Word) (val : Byte) : Word :=
  (old &&& ~~~((0xFF : Word) <<< shift)) ||| val.setWidth 32 <<< shift

def mmioWrite8 (addr : Word) (val : Byte) (s : Registers ω) : Registers ω :=
  let s := dev.sync s
  let shift := byteShift addr
  if 0x1F801000 ≤ addr ∧ addr ≤ 0x1F80103F then
    setMemCtrl addr (putByte shift (s.memCtrl (memCtrlIndex addr)) val) s
  else if 0x1F801060 ≤ addr ∧ addr ≤ 0x1F801063 then { s with ramSize := putByte shift s.ramSize val }
  else if 0x1F801070 ≤ addr ∧ addr ≤ 0x1F801073 then
    setIrq (Interrupts.writeStatMasked (val.setWidth 32 <<< shift) ((0xFF : Word) <<< shift)) s
  else if 0x1F801074 ≤ addr ∧ addr ≤ 0x1F801077 then
    setIrq (Interrupts.writeMaskMasked (val.setWidth 32 <<< shift) ((0xFF : Word) <<< shift)) s
  else if 0x1F801040 ≤ addr ∧ addr ≤ 0x1F80105F then dev.sioWrite (aligned addr) (val.setWidth 32) s
  else if 0x1F801080 ≤ addr ∧ addr ≤ 0x1F8010FF then
    dev.dmaWriteMasked (aligned addr) (val.setWidth 32 <<< shift) ((0xFF : Word) <<< shift) s
  else if 0x1F801100 ≤ addr ∧ addr ≤ 0x1F80112F then
    let r := timersRead (aligned addr) s
    timersWrite (aligned addr) (putByte shift r.2 val) r.1
  else if 0x1F801820 ≤ addr ∧ addr ≤ 0x1F801827 then
    let r := dev.mdecRead (aligned addr) s
    dev.mdecWrite (aligned addr) (putByte shift r.2 val) r.1
  else if 0x1F801800 ≤ addr ∧ addr ≤ 0x1F801803 then dev.cdromWrite addr (val.setWidth 32) s
  else s

end PsxRecomp.Mmio
