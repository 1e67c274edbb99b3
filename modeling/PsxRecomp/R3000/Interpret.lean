import PsxRecomp.R3000.Machine

/-! The interpreted tier: the cases of `exec_one_fetched_inner` other than jumps and branches, with
no widescreen, mod or hook site active. In BIOS code the register write of a load is rolled back and
becomes visible one instruction later. -/
namespace PsxRecomp.R3000
set_option autoImplicit false

variable {M : Type} (rt : Runtime M)

/-! ## Exceptions -/

/-- What `interp_exception` leaves in COP0. -/
def exceptionCop0 (cop0 : Reg → Word) (excCode badvaddr epc : Word) : Reg → Word :=
  let sr := cop0 12#5
  let cop0 := Function.update cop0 8 badvaddr
  let cop0 := Function.update cop0 13 (cop0 13#5 &&& ~~~0x8000007C#32 ||| excCode <<< 2)
  let cop0 := Function.update cop0 12 (sr &&& ~~~0x3F#32 ||| (sr &&& 0x0F) <<< 2)
  Function.update cop0 14 epc

/-- `interp_exception` -/
def interpException (excCode badvaddr epc : Word) (s : State M) : Outcome (State M) :=
  .transfer { s with
    cop0 := exceptionCop0 s.cop0 excCode badvaddr epc
    pc := if s.cop0 12#5 &&& 0x00400000 ≠ 0#32 then 0xBFC00180 else 0x80000080 }

/-! ## Registers and arithmetic -/

/-- `cpu->gpr[rd] = v; cpu->gpr[0] = 0; return 0;` -/
def interpWrite (rd : Reg) (v : Word) (s : State M) : Outcome (State M) := .next (s.setGpr rd v)

def interpMult (rs rt : Reg) (s : State M) : State M :=
  let r : BitVec 64 := (s.gpr rs).signExtend 64 * (s.gpr rt).signExtend 64
  { s with lo := r.setWidth 32, hi := (r >>> 32).setWidth 32 }

def interpMultu (rs rt : Reg) (s : State M) : State M :=
  let r : BitVec 64 := (s.gpr rs).setWidth 64 * (s.gpr rt).setWidth 64
  { s with lo := r.setWidth 32, hi := (r >>> 32).setWidth 32 }

def interpDiv (rs rt : Reg) (s : State M) : State M :=
  let a := s.gpr rs
  let b := s.gpr rt
  if b = 0#32 then { s with lo := if a.toInt < 0 then 1 else 0xFFFFFFFF, hi := a }
  else if a = 0x80000000#32 ∧ b = 0xFFFFFFFF#32 then { s with lo := 0x80000000, hi := 0 }
  else { s with lo := a.sdiv b, hi := a.srem b }

def interpDivu (rs rt : Reg) (s : State M) : State M :=
  let a := s.gpr rs
  let b := s.gpr rt
  if b = 0#32 then { s with lo := 0xFFFFFFFF, hi := a }
  else { s with lo := a / b, hi := a % b }

def interpSyscall (pc insn : Word) (s : State M) : Outcome (State M) :=
  match rt.psxSyscall { s with pc := pc } ((insn >>> 6) &&& 0xFFFFF) with
  | none => .exit
  | some (_, s) => if s.pc ≠ 0#32 then .transfer s else .next s

/-- The SPECIAL cases; an undefined encoding is ignored. -/
def execSpecial (pc insn : Word) (s : State M) : Outcome (State M) :=
  let a := s.gpr (rsField insn)
  let b := s.gpr (rtField insn)
  let rd := rdField insn
  let sh := shamtField insn
  match functField insn with
  | 0x00#6 => interpWrite rd (b <<< sh) s
  | 0x02#6 => interpWrite rd (b >>> sh) s
  | 0x03#6 => interpWrite rd (b.sshiftRight sh.toNat) s
  | 0x04#6 => interpWrite rd (b <<< (a &&& 31)) s
  | 0x06#6 => interpWrite rd (b >>> (a &&& 31)) s
  | 0x07#6 => interpWrite rd (b.sshiftRight (a &&& 31).toNat) s
  | 0x0C#6 => interpSyscall rt pc insn s
  | 0x0D#6 => .exit
  | 0x10#6 => interpWrite rd s.hi s
  | 0x11#6 => .next { s with hi := a }
  | 0x12#6 => interpWrite rd s.lo s
  | 0x13#6 => .next { s with lo := a }
  | 0x18#6 => .next (interpMult (rsField insn) (rtField insn) s)
  | 0x19#6 => .next (interpMultu (rsField insn) (rtField insn) s)
  | 0x1A#6 => .next (interpDiv (rsField insn) (rtField insn) s)
  | 0x1B#6 => .next (interpDivu (rsField insn) (rtField insn) s)
  | 0x20#6 => interpWrite rd (a + b) s
  | 0x21#6 => interpWrite rd (a + b) s
  | 0x22#6 => interpWrite rd (a - b) s
  | 0x23#6 => interpWrite rd (a - b) s
  | 0x24#6 => interpWrite rd (a &&& b) s
  | 0x25#6 => interpWrite rd (a ||| b) s
  | 0x26#6 => interpWrite rd (a ^^^ b) s
  | 0x27#6 => interpWrite rd (~~~(a ||| b)) s
  | 0x2A#6 => interpWrite rd (boolWord (a.slt b)) s
  | 0x2B#6 => interpWrite rd (boolWord (a.ult b)) s
  | _ => .next s

/-! ## Loads and stores -/

def interpAddress (insn : Word) (s : State M) : Word := s.gpr (rsField insn) + simm16Field insn

def interpLb (insn : Word) (s : State M) : Outcome (State M) :=
  let (v, s) := s.readByte rt (interpAddress insn s)
  interpWrite (rtField insn) (v.signExtend 32) s

def interpLbu (insn : Word) (s : State M) : Outcome (State M) :=
  let (v, s) := s.readByte rt (interpAddress insn s)
  interpWrite (rtField insn) (v.setWidth 32) s

def interpLh (pc insn : Word) (s : State M) : Outcome (State M) :=
  let addr := interpAddress insn s
  if addr &&& 1 ≠ 0#32 then interpException 4 addr pc s
  else
    let (v, s) := s.readHalf rt addr
    interpWrite (rtField insn) (v.signExtend 32) s

def interpLhu (pc insn : Word) (s : State M) : Outcome (State M) :=
  let addr := interpAddress insn s
  if addr &&& 1 ≠ 0#32 then interpException 4 addr pc s
  else
    let (v, s) := s.readHalf rt addr
    interpWrite (rtField insn) (v.setWidth 32) s

def interpLw (pc insn : Word) (s : State M) : Outcome (State M) :=
  let addr := interpAddress insn s
  if addr &&& 3 ≠ 0#32 then interpException 4 addr pc s
  else
    let (v, s) := s.readWord rt addr
    interpWrite (rtField insn) v s

def lwlMerge (addr word rtValue : Word) : Word :=
  match addr &&& 3 with
  | 0#32 => rtValue &&& 0x00FFFFFF ||| word <<< 24
  | 1#32 => rtValue &&& 0x0000FFFF ||| word <<< 16
  | 2#32 => rtValue &&& 0x000000FF ||| word <<< 8
  | _ => word

def lwrMerge (addr word rtValue : Word) : Word :=
  match addr &&& 3 with
  | 0#32 => word
  | 1#32 => rtValue &&& 0xFF000000 ||| word >>> 8
  | 2#32 => rtValue &&& 0xFFFF0000 ||| word >>> 16
  | _ => rtValue &&& 0xFFFFFF00 ||| word >>> 24

def interpLwl (insn : Word) (s : State M) : Outcome (State M) :=
  let addr := interpAddress insn s
  let (word, s) := s.readWord rt (addr &&& ~~~3#32)
  interpWrite (rtField insn) (lwlMerge addr word (s.gpr (rtField insn))) s

def interpLwr (insn : Word) (s : State M) : Outcome (State M) :=
  let addr := interpAddress insn s
  let (word, s) := s.readWord rt (addr &&& ~~~3#32)
  interpWrite (rtField insn) (lwrMerge addr word (s.gpr (rtField insn))) s

def interpSb (insn : Word) (s : State M) : Outcome (State M) :=
  .next (s.writeByte rt (interpAddress insn s) ((s.gpr (rtField insn)).setWidth 8))

def interpSh (pc insn : Word) (s : State M) : Outcome (State M) :=
  let addr := interpAddress insn s
  if addr &&& 1 ≠ 0#32 then interpException 5 addr pc s
  else .next (s.writeHalf rt addr ((s.gpr (rtField insn)).setWidth 16))

def interpSw (pc insn : Word) (s : State M) : Outcome (State M) :=
  let addr := interpAddress insn s
  if addr &&& 3 ≠ 0#32 then interpException 5 addr pc s
  else .next (s.writeWord rt addr (s.gpr (rtField insn)))

def swlMerge (addr word value : Word) : Word :=
  match addr &&& 3 with
  | 0#32 => word &&& 0xFFFFFF00 ||| value >>> 24
  | 1#32 => word &&& 0xFFFF0000 ||| value >>> 16
  | 2#32 => word &&& 0xFF000000 ||| value >>> 8
  | _ => value

def swrMerge (addr word value : Word) : Word :=
  match addr &&& 3 with
  | 0#32 => value
  | 1#32 => word &&& 0x000000FF ||| value <<< 8
  | 2#32 => word &&& 0x0000FFFF ||| value <<< 16
  | _ => word &&& 0x00FFFFFF ||| value <<< 24

/-- `interp_swl` -/
def interpSwl (insn : Word) (s : State M) : Outcome (State M) :=
  let addr := interpAddress insn s
  let value := s.gpr (rtField insn)
  let aligned := addr &&& ~~~3#32
  let (word, s) := s.readWord rt aligned
  .next (s.writeWord rt aligned (swlMerge addr word value))

/-- `interp_swr` -/
def interpSwr (insn : Word) (s : State M) : Outcome (State M) :=
  let addr := interpAddress insn s
  let value := s.gpr (rtField insn)
  let aligned := addr &&& ~~~3#32
  let (word, s) := s.readWord rt aligned
  .next (s.writeWord rt aligned (swrMerge addr word value))

/-! ## Coprocessors -/

/-- MTC0 leaves only the software-interrupt bits of Cause writable. -/
def mtc0Value (cop0 : Reg → Word) (rd : Reg) (val : Word) : Word :=
  if rd = 13#5 then cop0 13#5 &&& ~~~0x0300#32 ||| val &&& 0x0300#32 else val

/-- A software interrupt is deliverable after a write to Status or Cause. -/
def softwareInterrupt (cop0 : Reg → Word) (rd : Reg) : Prop :=
  (rd = 12#5 ∨ rd = 13#5) ∧ cop0 13#5 &&& cop0 12#5 &&& 0x0300 ≠ 0#32 ∧ cop0 12#5 &&& 0x1 ≠ 0#32

instance (cop0 : Reg → Word) (rd : Reg) : Decidable (softwareInterrupt cop0 rd) := by
  unfold softwareInterrupt
  infer_instance

def interpMtc0 (pc insn : Word) (s : State M) : Outcome (State M) :=
  let rd := rdField insn
  let val := s.gpr (rtField insn)
  let s := { s with cop0 := Function.update s.cop0 rd (mtc0Value s.cop0 rd val) }
  if softwareInterrupt s.cop0 rd then
    match rt.psxCheckInterrupts ({ s with pc := pc + 4 }.log (.checkInterrupts (pc + 4))) with
    | none => .exit
    | some s => if s.pc ≠ pc + 4 then .transfer s else .next s
  else .next s

def interpRfe (s : State M) : Outcome (State M) :=
  let sr := s.cop0 12#5
  .next { s with
    cop0 := Function.update s.cop0 12#5 (sr &&& 0xFFFFFFF0 ||| (sr >>> 2) &&& 0x0F) }

/-- `abort_unsupported`: the caller falls back, nothing has been executed. -/
def abortUnsupported (s : State M) : Outcome (State M) := .abandon s

def execCop0 (pc insn : Word) (s : State M) : Outcome (State M) :=
  match rsField insn with
  | 0x00#5 => interpWrite (rtField insn) (s.cop0 (rdField insn)) s
  | 0x02#5 => interpWrite (rtField insn) (s.cop0 (rdField insn)) s
  | 0x04#5 => interpMtc0 rt pc insn s
  | 0x06#5 => interpMtc0 rt pc insn s
  | 0x10#5 => if functField insn = 0x10#6 then interpRfe s else abortUnsupported s
  | _ => abortUnsupported s

def interpGteCommand (insn : Word) (s : State M) : Outcome (State M) :=
  match rt.gteExecute s.gte (insn &&& 0x1FFFFFF) with
  | none => .exit
  | some gte => .next { s with gte := gte }

def execCop2 (insn : Word) (s : State M) : Outcome (State M) :=
  let rt' := rtField insn
  let rd := rdField insn
  match rsField insn with
  | 0x00#5 => interpWrite rt' (s.gte.readData rd) s
  | 0x02#5 => interpWrite rt' (s.gte.readCtrl rd) s
  | 0x04#5 => .next { s with gte := s.gte.writeData rd (s.gpr rt') }
  | 0x06#5 => .next { s with gte := s.gte.writeCtrl rd (s.gpr rt') }
  | _ => if rsField insn &&& 0x10 ≠ 0#5 then interpGteCommand rt insn s else abortUnsupported s

def interpLwc2 (insn : Word) (s : State M) : Outcome (State M) :=
  let (v, s) := s.readWord rt (interpAddress insn s)
  .next { s with gte := s.gte.writeData (rtField insn) v }

def interpSwc2 (insn : Word) (s : State M) : Outcome (State M) :=
  .next (s.writeWord rt (interpAddress insn s) (s.gte.readData (rtField insn)))

/-! ## The switch -/

/-- `exec_one_fetched_inner` for an instruction that is no jump or branch. -/
def execPlain (pc insn : Word) (s : State M) : Outcome (State M) :=
  let a := s.gpr (rsField insn)
  let rt' := rtField insn
  let simm := simm16Field insn
  let imm := imm16Field insn
  match opField insn with
  | 0x00#6 => execSpecial rt pc insn s
  | 0x08#6 => interpWrite rt' (a + simm) s
  | 0x09#6 => interpWrite rt' (a + simm) s
  | 0x0A#6 => interpWrite rt' (boolWord (a.slt simm)) s
  | 0x0B#6 => interpWrite rt' (boolWord (a.ult simm)) s
  | 0x0C#6 => interpWrite rt' (a &&& imm) s
  | 0x0D#6 => interpWrite rt' (a ||| imm) s
  | 0x0E#6 => interpWrite rt' (a ^^^ imm) s
  | 0x0F#6 => interpWrite rt' (imm <<< 16) s
  | 0x10#6 => execCop0 rt pc insn s
  | 0x12#6 => execCop2 rt insn s
  | 0x20#6 => interpLb rt insn s
  | 0x21#6 => interpLh rt pc insn s
  | 0x22#6 => interpLwl rt insn s
  | 0x23#6 => interpLw rt pc insn s
  | 0x24#6 => interpLbu rt insn s
  | 0x25#6 => interpLhu rt pc insn s
  | 0x26#6 => interpLwr rt insn s
  | 0x28#6 => interpSb rt insn s
  | 0x29#6 => interpSh rt pc insn s
  | 0x2A#6 => interpSwl rt insn s
  | 0x2B#6 => interpSw rt pc insn s
  | 0x2E#6 => interpSwr rt insn s
  | 0x32#6 => interpLwc2 rt insn s
  | 0x3A#6 => interpSwc2 rt insn s
  | _ => abortUnsupported s

/-! ## The pending load -/

/-- `s_ld_pend_rt`, `s_ld_pend_val`, `s_ld_pend_age` and `s_ld_pend_armed`. -/
structure LdPend where
  rt : Reg
  val : Word
  age : ℕ
  armed : Bool
deriving DecidableEq, Repr

def LdPend.idle : LdPend := { rt := 0, val := 0, age := 0, armed := false }

/-- The interpreter's machine: the CPU with the load still to retire. -/
abbrev Shimmed (M : Type) := State M × LdPend

/-- `dirty_ram_ld_delay_flush` -/
def ldDelayFlush (m : Shimmed M) : Shimmed M :=
  if m.2.armed then
    (m.1.setGpr m.2.rt m.2.val, { m.2 with armed := false, age := 0 })
  else m

/-! ## The shim -/

/-- What the shim does before an instruction: a load retires after its delay slot, and early for
the LWL or LWR that merges into it. -/
def ldBefore (insn : Word) (m : Shimmed M) : Shimmed M :=
  if m.2.armed ∧ m.2.age ≠ 0 then (m.1.setGpr m.2.rt m.2.val, { m.2 with armed := false })
  else if m.2.armed then
    if (opField insn = 0x22#6 ∨ opField insn = 0x26#6) ∧ rtField insn = m.2.rt then
      (m.1.setGpr m.2.rt m.2.val, { m.2 with armed := false })
    else (m.1, { m.2 with age := 1 })
  else m

/-- BIOS ROM, or the kernel's low RAM. -/
def inBiosWindow (pc : Word) : Bool :=
  let phys := pc &&& 0x1FFFFFFF
  (0x1FC00000 ≤ phys ∧ phys < 0x1FC80000) ∨ phys < 0x00010000

def isLd (pc insn : Word) : Bool :=
  inBiosWindow pc ∧ 0x20#6 ≤ opField insn ∧ opField insn ≤ 0x26#6 ∧ rtField insn ≠ 0#5

/-- What it does after a load whose destination held `before`: a changed register is put back and
the loaded value left pending. -/
def ldAfter (ldRt : Reg) (before : Word) (m : Shimmed M) : Shimmed M :=
  let loaded := m.1.gpr ldRt
  if loaded ≠ before then
    let s := if m.2.armed ∧ m.2.rt ≠ ldRt ∧ m.2.rt ≠ 0#5 then m.1.setGpr m.2.rt m.2.val else m.1
    (s.setGpr ldRt before, { rt := ldRt, val := loaded, age := 0, armed := true })
  else m

/-- `exec_one_fetched` around a decoder. -/
def execOneFetched (inner : Shimmed M → Outcome (Shimmed M)) (pc insn : Word) (m : Shimmed M) :
    Outcome (Shimmed M) :=
  let m := ldBefore insn m
  let before := m.1.gpr (rtField insn)
  if isLd pc insn then (inner m).map (ldAfter (rtField insn) before) else inner m

/-- The decoder on an instruction that is no jump or branch. -/
def plainInner (pc insn : Word) (m : Shimmed M) : Outcome (Shimmed M) :=
  (execPlain rt pc insn m.1).map fun s => (s, m.2)

/-- One instruction that is no jump or branch, behind the shim. -/
def execOnePlain (pc insn : Word) (m : Shimmed M) : Outcome (Shimmed M) :=
  execOneFetched (plainInner rt pc insn) pc insn m

end PsxRecomp.R3000
