import Mathlib

/-! The interrupt controller and the coprocessor registers it meets: I_STAT and I_MASK, their
register file, and the bit of CAUSE that mirrors the line between them. -/
namespace PsxRecomp.Interrupts
set_option autoImplicit false

abbrev Word := BitVec 32

/-! ## State -/

/-- The registers of COP0 that interrupts read and write. -/
structure Cop0 where
  sr : Word
  cause : Word
  epc : Word
deriving DecidableEq, Repr

/-- `g_exc_escape_reason` -/
inductive EscapeReason
  | none
  | rfeReturn
  | syscallReturn
  | legacySentinel
deriving DecidableEq, Repr

/-- What `checkpoint_save` of a render pass keeps of all this. -/
structure Checkpoint where
  cop0 : Cop0
  iStat : Word
  iMask : Word
  cyclesSinceVblank : Word
deriving DecidableEq, Repr

structure Machine where
  iStat : Word
  iMask : Word
  cop0 : Cop0
  /-- `s_cause_ptr` points at the CAUSE of the CPU. -/
  wired : Bool
  cyclesSinceVblank : Word
  /-- `psx_get_cycle_count()` -/
  clock : ℕ
  inException : Bool
  nestDepth : ℤ
  rfeEscapePending : Bool
  escapeReason : EscapeReason
  /-- `post_exception_cooldown_until`, 0 where none is active. -/
  cooldownUntil : ℕ
  /-- `g_psx_guest_time_frozen` -/
  frozen : Bool
  deferSwitchPending : Bool
  netplay : Bool
  idleSkip : Bool
  dirtyResumePc : Word
  compiledResumePc : Word
  lastCheckPc : Word
  checkpoint : Option Checkpoint
deriving DecidableEq, Repr

/-- Before anything has run: static storage is zero and the CPU has not been wired. -/
def powerOn : Machine where
  iStat := 0
  iMask := 0
  cop0 := ⟨0, 0, 0⟩
  wired := false
  cyclesSinceVblank := 0
  clock := 0
  inException := false
  nestDepth := 0
  rfeEscapePending := false
  escapeReason := .none
  cooldownUntil := 0
  frozen := false
  deferSwitchPending := false
  netplay := false
  idleSkip := false
  dirtyResumePc := 0
  compiledResumePc := 0
  lastCheckPc := 0
  checkpoint := none

/-! ## The line and its mirror -/

/-- `i_stat & i_mask & 0x7FF` is not 0. -/
def line (m : Machine) : Bool := m.iStat &&& m.iMask &&& 0x7FF#32 ≠ 0#32

def ip2 : Word := 0x400#32

def withIp2 (set : Bool) (cause : Word) : Word := if set then cause ||| ip2 else cause &&& ~~~ip2

/-- `psx_irq_refresh_cause_ip2` -/
def refreshCauseIp2 (m : Machine) : Machine :=
  if m.wired then { m with cop0 := { m.cop0 with cause := withIp2 (line m) m.cop0.cause } } else m

/-- `psx_irq_set_cause_ptr`, with the CPU pointed at, or with none. -/
def setCausePtr (cpu : Option Cop0) (m : Machine) : Machine :=
  match cpu with
  | some cop0 => refreshCauseIp2 { m with cop0 := cop0, wired := true }
  | none => refreshCauseIp2 { m with wired := false }

/-- `psx_irq_raise` -/
def irqRaise (bit : ℕ) (m : Machine) : Machine :=
  refreshCauseIp2 { m with iStat := m.iStat ||| 1#32 <<< bit }

/-! ## Register writes -/

/-- `interrupt_write_stat_masked`: a 0 acknowledges, in the lanes written. -/
def writeStatMasked (val mask : Word) (m : Machine) : Machine :=
  let ackMask := mask &&& 0x7FF#32
  refreshCauseIp2 { m with iStat := m.iStat &&& ~~~ackMask ||| m.iStat &&& val &&& ackMask }

/-- `interrupt_write_mask_masked` -/
def writeMaskMasked (val mask : Word) (m : Machine) : Machine :=
  refreshCauseIp2 { m with iMask := (m.iMask &&& ~~~mask ||| val &&& mask) &&& 0x7FF#32 }

/-- `mmio_write32` at the two registers. -/
def write32 (addr val : Word) (m : Machine) : Machine :=
  if addr = 0x1F801070#32 then writeStatMasked val 0xFFFFFFFF#32 m
  else if addr = 0x1F801074#32 then writeMaskMasked val 0xFFFFFFFF#32 m
  else m

/-- `mmio_write16` -/
def write16 (addr : Word) (val : BitVec 16) (m : Machine) : Machine :=
  let shift := if addr &&& 2#32 ≠ 0#32 then 16 else 0
  if 0x1F801070#32 ≤ addr ∧ addr ≤ 0x1F801072#32 then
    writeStatMasked (val.zeroExtend 32 <<< shift) (0xFFFF#32 <<< shift) m
  else if 0x1F801074#32 ≤ addr ∧ addr ≤ 0x1F801076#32 then
    writeMaskMasked (val.zeroExtend 32 <<< shift) (0xFFFF#32 <<< shift) m
  else m

/-- `mmio_write8` -/
def write8 (addr : Word) (val : BitVec 8) (m : Machine) : Machine :=
  let shift := 8 * (addr &&& 3#32).toNat
  if 0x1F801070#32 ≤ addr ∧ addr ≤ 0x1F801073#32 then
    writeStatMasked (val.zeroExtend 32 <<< shift) (0xFF#32 <<< shift) m
  else if 0x1F801074#32 ≤ addr ∧ addr ≤ 0x1F801077#32 then
    writeMaskMasked (val.zeroExtend 32 <<< shift) (0xFF#32 <<< shift) m
  else m

/-! ## Initialisation, states and checkpoints -/

/-- `interrupts_init` -/
def interruptsInit (m : Machine) : Machine :=
  { m with
    inException := false
    nestDepth := 0
    cooldownUntil := 0
    cyclesSinceVblank := 0
    iStat := 0
    iMask := 0
    deferSwitchPending := false
    compiledResumePc := 0
    lastCheckPc := 0
    escapeReason := .none
    rfeEscapePending := false }

/-- `memory_init`, of which only I_STAT and I_MASK are kept here. -/
def memoryInit (m : Machine) : Machine := { m with iStat := 0, iMask := 0 }

/-- The sections of a machine state that reach this state. -/
inductive Section
  | cpu (cop0 : Cop0)
  | irq (iStat iMask : Word) (cyclesSinceVblank : Option Word)
  | other
deriving DecidableEq, Repr

/-- `apply_section`; an IRQ section of 8 bytes carries no VBlank phase. -/
def applySection (m : Machine) : Section → Machine
  | .cpu cop0 => { m with cop0 := cop0 }
  | .irq iStat iMask csv =>
    { m with iStat := iStat, iMask := iMask, cyclesSinceVblank := csv.getD 0 }
  | .other => m

/-- The second pass of `boot_state_load_buffer_impl`. -/
def loadState (sections : List Section) (m : Machine) : Machine := sections.foldl applySection m

/-- `checkpoint_save` -/
def checkpointSave (m : Machine) : Machine :=
  { m with checkpoint := some ⟨m.cop0, m.iStat, m.iMask, m.cyclesSinceVblank⟩ }

/-- `checkpoint_restore` -/
def checkpointRestore (m : Machine) : Machine :=
  match m.checkpoint with
  | some ck => refreshCauseIp2 { m with
      cyclesSinceVblank := ck.cyclesSinceVblank
      iStat := ck.iStat
      iMask := ck.iMask
      cop0 := ck.cop0 }
  | none => m

/-! ## Writers of CAUSE -/

/-- MTC0 as it is compiled: the register takes the value whole. -/
def mtc0Compiled (rd : Fin 32) (val : Word) (m : Machine) : Machine :=
  if rd = 12 then { m with cop0 := { m.cop0 with sr := val } }
  else if rd = 13 then { m with cop0 := { m.cop0 with cause := val } }
  else if rd = 14 then { m with cop0 := { m.cop0 with epc := val } }
  else m

/-- MTC0 and CTC0 of `dirty_ram_interp.c`: of CAUSE only bits 8 and 9 are writable. -/
def mtc0Interpreted (rd : Fin 32) (val : Word) (m : Machine) : Machine :=
  if rd = 13 then
    { m with cop0 := { m.cop0 with
        cause := m.cop0.cause &&& ~~~0x300#32 ||| val &&& 0x300#32 } }
  else mtc0Compiled rd val m

/-- The mode stack of SR pushed, with bits `keep` of CAUSE around a new exception code. -/
def enterException (keep : Word) (code : Fin 32) (epc : Word) (m : Machine) : Machine :=
  { m with cop0 := {
      sr := m.cop0.sr &&& ~~~0x3F#32 ||| (m.cop0.sr &&& 0x0F#32) <<< 2
      cause := m.cop0.cause &&& keep ||| BitVec.ofNat 32 code <<< 2
      epc := epc } }

/-- A synchronous exception, with the delay-slot bit cleared or left. -/
def raiseException (clearsBd : Bool) (code : Fin 32) (epc : Word) (m : Machine) : Machine :=
  enterException (if clearsBd then ~~~0x8000007C#32 else ~~~0x7C#32) code epc m

/-- `psx_restore_context_from_tcb`, from the SR and the CAUSE the thread was saved with. -/
def restoreContext (sr cause : Word) (m : Machine) : Machine :=
  refreshCauseIp2 { m with cop0 := { m.cop0 with
    sr := sr &&& 0xFFFFFFC0#32 ||| sr >>> 2 &&& 0x0F#32
    cause := cause } }

end PsxRecomp.Interrupts
