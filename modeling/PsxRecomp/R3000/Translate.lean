import PsxRecomp.R3000.Machine

/-! The compiled tier: what the C that `StrictTranslator::translate` emits for an instruction does
to the machine, with the default continuation-passing calls. A C statement block is a function of
the state; its `return` ends the compiled function. -/
namespace PsxRecomp.R3000
set_option autoImplicit false

variable {M : Type} (rt : Runtime M)

/-! ## Traps -/

/-- `psx_unaligned_access`: the first three hits dump the callback table. -/
def unalignedAccess (s : State M) : State M :=
  if s.faults < 3 then
    let s := (List.range 11).foldl
      (fun s i => (s.readWord rt (0x800DFEE0 + BitVec.ofNat 32 (i * 4))).2) s
    let s := (s.readWord rt 0x800DFF0C).2
    { s with faults := s.faults + 1 }
  else s

/-! ## Translation results -/

/-- The emitted C of an instruction. `deferred` is `load_dest` with `c_code_deferred`: the loaded
value, or the state in which the emitted code returns. -/
structure Code (M : Type) where
  run : State M → Outcome (State M)
  deferred : Option (Reg × (State M → Except (State M) (Word × State M))) := none
  isTerminator : Bool := false

inductive TerminatorKind
  | jr | jalr | beq | bne | blez | bgtz | bltz | bgez | j | jal
deriving DecidableEq, Repr

/-- `TranslateResult` -/
inductive Translation (M : Type)
  | unsupported
  | terminator (kind : TerminatorKind)
  | code (c : Code M)

/-! ## Registers and arithmetic -/

/-- `emit_gpr_write` -/
def emitGprWrite (dest : Reg) (rhs : State M → Word) (s : State M) : Outcome (State M) :=
  if dest = 0#5 then .next s else .next (s.setGpr dest (rhs s))

/-- ADD and ADDI: the sum is formed in 64 bits and probed before it is written. -/
def emitAddTrapping (dest : Reg) (a b : State M → Word) (s : State M) : Outcome (State M) :=
  let r : ℤ := (a s).toInt + (b s).toInt
  if r < -2147483648 ∨ 2147483647 < r then .exit
  else if dest = 0#5 then .next s
  else .next (s.setGpr dest (BitVec.ofInt 32 r))

def emitMult (rs rt : Reg) (s : State M) : State M :=
  let p : BitVec 64 := (s.gpr rs).signExtend 64 * (s.gpr rt).signExtend 64
  { s with lo := (p &&& 0xFFFFFFFF).setWidth 32, hi := (p >>> 32).setWidth 32 }

def emitMultu (rs rt : Reg) (s : State M) : State M :=
  let p : BitVec 64 := (s.gpr rs).setWidth 64 * (s.gpr rt).setWidth 64
  { s with lo := (p &&& 0xFFFFFFFF).setWidth 32, hi := (p >>> 32).setWidth 32 }

/-- DIV, the remainder by subtraction. -/
def emitDiv (rs rt : Reg) (s : State M) : State M :=
  let n := s.gpr rs
  let d := s.gpr rt
  if d = 0#32 then { s with lo := if 0 ≤ n.toInt then 0xFFFFFFFF else 1, hi := n }
  else if n = 0x80000000#32 ∧ d = 0xFFFFFFFF#32 then { s with lo := 0x80000000, hi := 0 }
  else
    let q := n.sdiv d
    { s with lo := q, hi := n - q * d }

def emitDivu (rs rt : Reg) (s : State M) : State M :=
  let n := s.gpr rs
  let d := s.gpr rt
  if d = 0#32 then { s with lo := 0xFFFFFFFF, hi := n }
  else
    let q := n / d
    { s with lo := q, hi := n - q * d }

/-- SYSCALL: a void syscall goes on with the inline code, a transfer returns. -/
def emitSyscall (pc : Word) (s : State M) : Outcome (State M) :=
  match rt.psxSyscall { s with pc := pc } (s.gpr 2#5) with
  | none => .exit
  | some (true, s) => .transfer s
  | some (false, s) => .next s

/-- The SPECIAL functions of `translate_impl`. -/
def translateSpecial (raw pc : Word) : Translation M :=
  let rs := rsField raw
  let rt' := rtField raw
  let rd := rdField raw
  let shamt := shamtField raw
  let write (rhs : State M → Word) : Translation M := .code { run := emitGprWrite rd rhs }
  match functField raw with
  | 0x00#6 => write fun s => s.gpr rt' <<< shamt
  | 0x02#6 => write fun s => s.gpr rt' >>> shamt
  | 0x03#6 => write fun s => (s.gpr rt').sshiftRight shamt.toNat
  | 0x04#6 => write fun s => s.gpr rt' <<< (s.gpr rs &&& 0x1F)
  | 0x06#6 => write fun s => s.gpr rt' >>> (s.gpr rs &&& 0x1F)
  | 0x07#6 => write fun s => (s.gpr rt').sshiftRight (s.gpr rs &&& 0x1F).toNat
  | 0x08#6 => .terminator .jr
  | 0x09#6 => .terminator .jalr
  | 0x0C#6 => .code { run := emitSyscall rt pc }
  | 0x0D#6 => .code { run := fun _ => .exit }
  | 0x10#6 => write fun s => s.hi
  | 0x11#6 => .code { run := fun s => .next { s with hi := s.gpr rs } }
  | 0x12#6 => write fun s => s.lo
  | 0x13#6 => .code { run := fun s => .next { s with lo := s.gpr rs } }
  | 0x18#6 => .code { run := fun s => .next (emitMult rs rt' s) }
  | 0x19#6 => .code { run := fun s => .next (emitMultu rs rt' s) }
  | 0x1A#6 => .code { run := fun s => .next (emitDiv rs rt' s) }
  | 0x1B#6 => .code { run := fun s => .next (emitDivu rs rt' s) }
  | 0x20#6 => .code { run := emitAddTrapping rd (fun s => s.gpr rs) (fun s => s.gpr rt') }
  | 0x21#6 => write fun s => s.gpr rs + s.gpr rt'
  | 0x22#6 => write fun s => s.gpr rs - s.gpr rt'
  | 0x23#6 => write fun s => s.gpr rs - s.gpr rt'
  | 0x24#6 => write fun s => s.gpr rs &&& s.gpr rt'
  | 0x25#6 => write fun s => s.gpr rs ||| s.gpr rt'
  | 0x26#6 => write fun s => s.gpr rs ^^^ s.gpr rt'
  | 0x27#6 => write fun s => ~~~(s.gpr rs ||| s.gpr rt')
  | 0x2A#6 => write fun s => boolWord ((s.gpr rs).slt (s.gpr rt'))
  | 0x2B#6 => write fun s => boolWord ((s.gpr rs).ult (s.gpr rt'))
  | _ => .unsupported

/-! ## Loads -/

/-- `(uint32_t)((int32_t)cpu->gpr[rs] + simm)` -/
def emitAddress (raw : Word) (s : State M) : Word := s.gpr (rsField raw) + simm16Field raw

/-- A simple load: the value, or the state left by an unaligned address. -/
abbrev LoadValue (M : Type) := State M → Except (State M) (Word × State M)

def lbValue (raw : Word) : LoadValue M := fun s =>
  let (v, s) := s.readByte rt (emitAddress raw s)
  .ok (v.signExtend 32, s)

def lbuValue (raw : Word) : LoadValue M := fun s =>
  let (v, s) := s.readByte rt (emitAddress raw s)
  .ok (v.setWidth 32, s)

def lhValue (raw : Word) : LoadValue M := fun s =>
  let addr := emitAddress raw s
  if addr &&& 1 ≠ 0#32 then .error (unalignedAccess rt s)
  else
    let (v, s) := s.readHalf rt addr
    .ok (v.signExtend 32, s)

def lhuValue (raw : Word) : LoadValue M := fun s =>
  let addr := emitAddress raw s
  if addr &&& 1 ≠ 0#32 then .error (unalignedAccess rt s)
  else
    let (v, s) := s.readHalf rt addr
    .ok (v.setWidth 32, s)

def lwValue (raw : Word) : LoadValue M := fun s =>
  let addr := emitAddress raw s
  if addr &&& 3 ≠ 0#32 then .error (unalignedAccess rt s)
  else .ok (s.readWord rt addr)

def writeLoaded (dest : Reg) : Except (State M) (Word × State M) → Outcome (State M)
  | .error s => .abandon s
  | .ok (v, s) => .next (s.setGpr dest v)

def dropLoaded : Except (State M) (Word × State M) → Outcome (State M)
  | .error s => .abandon s
  | .ok (_, s) => .next s

/-- A simple load into `dest`: a read for `$zero` is made and its value dropped. -/
def emitLoad (dest : Reg) (value : LoadValue M) : Translation M :=
  if dest = 0#5 then .code { run := fun s => dropLoaded (value s) }
  else .code { run := fun s => writeLoaded dest (value s), deferred := some (dest, value) }

/-- LWL: `oldRt` is the value of `psx_old_rt`, the merge base. -/
def emitLwl (raw : Word) (oldRt : State M → Word) (s : State M) : Outcome (State M) :=
  let addr := emitAddress raw s
  let aligned := addr &&& ~~~3#32
  if rtField raw = 0#5 then .next (s.readWord rt aligned).2
  else
    let byteOffset := addr &&& 3
    let shiftLeft := (3 - byteOffset) * 8
    let keepMask := (1#32 <<< shiftLeft) - 1
    let (word, s) := s.readWord rt aligned
    .next (s.setGpr (rtField raw) (oldRt s &&& keepMask ||| word <<< shiftLeft))

/-- LWR -/
def emitLwr (raw : Word) (oldRt : State M → Word) (s : State M) : Outcome (State M) :=
  let addr := emitAddress raw s
  let aligned := addr &&& ~~~3#32
  if rtField raw = 0#5 then .next (s.readWord rt aligned).2
  else
    let byteOffset := addr &&& 3
    let shiftRight := byteOffset * 8
    let keepMask := ~~~(0xFFFFFFFF#32 >>> shiftRight)
    let (word, s) := s.readWord rt aligned
    .next (s.setGpr (rtField raw) (oldRt s &&& keepMask ||| word >>> shiftRight))

/-! ## Stores -/

def emitSb (raw : Word) (s : State M) : Outcome (State M) :=
  .next (s.writeByte rt (emitAddress raw s) ((s.gpr (rtField raw) &&& 0xFF).setWidth 8))

def emitSh (raw : Word) (s : State M) : Outcome (State M) :=
  let addr := emitAddress raw s
  if addr &&& 1 ≠ 0#32 then .abandon (unalignedAccess rt s)
  else .next (s.writeHalf rt addr ((s.gpr (rtField raw) &&& 0xFFFF).setWidth 16))

def emitSw (raw : Word) (s : State M) : Outcome (State M) :=
  let addr := emitAddress raw s
  if addr &&& 3 ≠ 0#32 then .abandon (unalignedAccess rt s)
  else .next (s.writeWord rt addr (s.gpr (rtField raw)))

def emitSwl (raw : Word) (s : State M) : Outcome (State M) :=
  let addr := emitAddress raw s
  let aligned := addr &&& ~~~3#32
  let shiftBytes := addr &&& 3
  let shiftBits := (3 - shiftBytes) * 8
  let keepMask := 0x00FFFFFF#32 >>> (shiftBytes * 8)
  let (mem, s) := s.readWord rt aligned
  .next (s.writeWord rt aligned (mem &&& keepMask ||| s.gpr (rtField raw) >>> shiftBits))

def emitSwr (raw : Word) (s : State M) : Outcome (State M) :=
  let addr := emitAddress raw s
  let aligned := addr &&& ~~~3#32
  let shiftBytes := addr &&& 3
  let shiftBits := shiftBytes * 8
  let keepMask := 0xFFFFFF00#32 <<< ((3 - shiftBytes) * 8)
  let (mem, s) := s.readWord rt aligned
  .next (s.writeWord rt aligned (mem &&& keepMask ||| s.gpr (rtField raw) <<< shiftBits))

/-! ## Coprocessors -/

/-- RFE is this whole word. -/
def rfeWord : Word := 0x42000010

def rfePop (s : State M) : State M :=
  let sr := s.cop0 12#5
  { s with cop0 := Function.update s.cop0 12#5 (sr &&& 0xFFFFFFC0 ||| (sr >>> 2) &&& 0x0F) }

def emitRfe (s : State M) : Outcome (State M) := .abandon (rfePop s)

def emitMtc0 (rd rt : Reg) (s : State M) : Outcome (State M) :=
  .next { s with cop0 := Function.update s.cop0 rd (s.gpr rt) }

def translateCop0 (raw : Word) : Translation M :=
  let rs := rsField raw
  let rt' := rtField raw
  let rd := rdField raw
  if raw = rfeWord then .code { run := emitRfe, isTerminator := true }
  else match rs with
  | 0x00#5 => .code { run := emitGprWrite rt' fun s => s.cop0 rd }
  | 0x04#5 => .code { run := emitMtc0 rd rt' }
  | _ => .unsupported

/-- MFC2 and SWC2 read a data register through the helper where its value is computed. -/
def emitDataRead (c : Cop2) (reg : Reg) : Word :=
  if Cop2.dataReadNeedsHelper reg then c.readData reg else c.data reg

def emitCtrlRead (c : Cop2) (reg : Reg) : Word :=
  if Cop2.ctrlNeedsHelper reg then c.readCtrl reg else c.ctrl reg

def emitDataWrite (c : Cop2) (reg : Reg) (val : Word) : Cop2 :=
  if Cop2.dataWriteNeedsHelper reg then c.writeData reg val
  else { c with data := Function.update c.data reg val }

def emitCtrlWrite (c : Cop2) (reg : Reg) (val : Word) : Cop2 :=
  if Cop2.ctrlNeedsHelper reg then c.writeCtrl reg val
  else { c with ctrl := Function.update c.ctrl reg val }

def emitMtc2 (rd rt : Reg) (s : State M) : Outcome (State M) :=
  .next { s with gte := emitDataWrite s.gte rd (s.gpr rt) }

def emitCtc2 (rd rt : Reg) (s : State M) : Outcome (State M) :=
  .next { s with gte := emitCtrlWrite s.gte rd (s.gpr rt) }

/-- `gte_execute` -/
def gteCommand (raw : Word) (s : State M) : Outcome (State M) :=
  match rt.gteExecute s.gte (raw &&& 0x1FFFFFF) with
  | none => .exit
  | some gte => .next { s with gte := gte }

def translateCop2 (raw : Word) : Translation M :=
  let copOp := rsField raw
  let rt' := rtField raw
  let rd := rdField raw
  match copOp with
  | 0x00#5 => .code { run := emitGprWrite rt' fun s => emitDataRead s.gte rd }
  | 0x02#5 => .code { run := emitGprWrite rt' fun s => emitCtrlRead s.gte rd }
  | 0x04#5 => .code { run := emitMtc2 rd rt' }
  | 0x06#5 => .code { run := emitCtc2 rd rt' }
  | _ => if copOp &&& 0x10 ≠ 0#5 then .code { run := gteCommand rt raw } else .unsupported

/-- LWC2 and SWC2 name the base register alone for a zero offset. -/
def emitCop2Address (raw : Word) (s : State M) : Word :=
  if simm16Field raw = 0#32 then s.gpr (rsField raw) else emitAddress raw s

def emitLwc2 (raw : Word) (s : State M) : Outcome (State M) :=
  let (v, s) := s.readWord rt (emitCop2Address raw s)
  .next { s with gte := emitDataWrite s.gte (rtField raw) v }

def emitSwc2 (raw : Word) (s : State M) : Outcome (State M) :=
  .next (s.writeWord rt (emitCop2Address raw s) (emitDataRead s.gte (rtField raw)))

/-! ## The translator -/

/-- `translate_impl`, for an instruction run at `pc`. -/
def translate (raw pc : Word) : Translation M :=
  let rs := rsField raw
  let rt' := rtField raw
  let simm := simm16Field raw
  let imm := imm16Field raw
  let write (rhs : State M → Word) : Translation M := .code { run := emitGprWrite rt' rhs }
  if raw = 0#32 then .code { run := fun s => .next s }
  else match opField raw with
  | 0x00#6 => translateSpecial rt raw pc
  | 0x01#6 => match rt' with
    | 0x00#5 => .terminator .bltz
    | 0x01#5 => .terminator .bgez
    | _ => .unsupported
  | 0x02#6 => .terminator .j
  | 0x03#6 => .terminator .jal
  | 0x04#6 => .terminator .beq
  | 0x05#6 => .terminator .bne
  | 0x06#6 => .terminator .blez
  | 0x07#6 => .terminator .bgtz
  | 0x08#6 => .code { run := emitAddTrapping rt' (fun s => s.gpr rs) (fun _ => simm) }
  | 0x09#6 => write fun s => s.gpr rs + simm
  | 0x0A#6 => write fun s => boolWord ((s.gpr rs).slt simm)
  | 0x0B#6 => write fun s => boolWord ((s.gpr rs).ult simm)
  | 0x0C#6 => write fun s => s.gpr rs &&& imm
  | 0x0D#6 => write fun s => s.gpr rs ||| imm
  | 0x0E#6 => write fun s => s.gpr rs ^^^ imm
  | 0x0F#6 => write fun _ => imm <<< 16
  | 0x10#6 => translateCop0 raw
  | 0x12#6 => translateCop2 rt raw
  | 0x20#6 => emitLoad rt' (lbValue rt raw)
  | 0x21#6 => emitLoad rt' (lhValue rt raw)
  | 0x22#6 => .code { run := emitLwl rt raw fun s => s.gpr rt' }
  | 0x23#6 => emitLoad rt' (lwValue rt raw)
  | 0x24#6 => emitLoad rt' (lbuValue rt raw)
  | 0x25#6 => emitLoad rt' (lhuValue rt raw)
  | 0x26#6 => .code { run := emitLwr rt raw fun s => s.gpr rt' }
  | 0x28#6 => .code { run := emitSb rt raw }
  | 0x29#6 => .code { run := emitSh rt raw }
  | 0x2A#6 => .code { run := emitSwl rt raw }
  | 0x2B#6 => .code { run := emitSw rt raw }
  | 0x2E#6 => .code { run := emitSwr rt raw }
  | 0x32#6 => .code { run := emitLwc2 rt raw }
  | 0x3A#6 => .code { run := emitSwc2 rt raw }
  | _ => .unsupported

end PsxRecomp.R3000
