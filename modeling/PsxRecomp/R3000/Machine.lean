import PsxRecomp.R3000.Gte

/-! The machine both tiers run on: the CPU state, the memory handlers behind it, and the fields
of an instruction word. Cycle accounting, PGXP and the debug rings are left out. -/
namespace PsxRecomp.R3000
set_option autoImplicit false

/-! ## Instruction fields -/

def opField (i : Word) : BitVec 6 := i.extractLsb' 26 6
def rsField (i : Word) : Reg := i.extractLsb' 21 5
def rtField (i : Word) : Reg := i.extractLsb' 16 5
def rdField (i : Word) : Reg := i.extractLsb' 11 5
def shamtField (i : Word) : Reg := i.extractLsb' 6 5
def functField (i : Word) : BitVec 6 := i.extractLsb' 0 6
def imm16Field (i : Word) : Word := (i.extractLsb' 0 16).setWidth 32
def simm16Field (i : Word) : Word := (i.extractLsb' 0 16).signExtend 32
def target26 (i : Word) : Word := (i.extractLsb' 0 26).setWidth 32

/-- `b ? 1 : 0` -/
def boolWord (b : Bool) : Word := if b then 1 else 0

/-! ## Registers -/

/-- The general registers; `gpr[0]` is hardwired zero. -/
structure RegFile where
  reg : Reg → Word
  zero : reg 0#5 = 0#32

namespace RegFile

instance : CoeFun RegFile (fun _ => Reg → Word) := ⟨RegFile.reg⟩

theorem ext {g h : RegFile} (e : ∀ r, g r = h r) : g = h := by
  cases g
  cases h
  congr
  exact funext e

@[simp] theorem reg_zero (g : RegFile) : g 0#5 = 0#32 := g.zero

/-- `gpr[r] = v; gpr[0] = 0;` -/
def set (g : RegFile) (r : Reg) (v : Word) : RegFile where
  reg := fun i => if i = 0#5 then 0#32 else if i = r then v else g i
  zero := rfl

theorem set_apply (g : RegFile) (r i : Reg) (v : Word) :
    (g.set r v) i = if i = 0#5 then 0#32 else if i = r then v else g i := rfl

theorem set_self (g : RegFile) {r : Reg} (hr : r ≠ 0#5) (v : Word) : (g.set r v) r = v := by
  rw [set_apply, if_neg hr, if_pos rfl]

theorem set_ne (g : RegFile) {r i : Reg} (h : i ≠ r) (v : Word) : (g.set r v) i = g i := by
  rw [set_apply, if_neg h]
  split
  case isTrue hi => rw [hi, reg_zero]
  case isFalse => rfl

/-- A write to `$zero` is discarded. -/
@[simp] theorem set_zero (g : RegFile) (v : Word) : g.set 0#5 v = g := by
  apply ext
  intro i
  by_cases hi : i = 0#5
  · rw [hi, reg_zero, reg_zero]
  · rw [set_ne g hi]

theorem set_set (g : RegFile) (r : Reg) (v w : Word) : (g.set r v).set r w = g.set r w := by
  apply ext
  intro i
  simp only [set_apply]
  split_ifs <;> rfl

theorem set_comm (g : RegFile) {r q : Reg} (h : r ≠ q) (v w : Word) :
    (g.set r v).set q w = (g.set q w).set r v := by
  apply ext
  intro i
  simp only [set_apply]
  split_ifs with h0 hq hr
  · rfl
  · exact absurd (hr.symm.trans hq) h
  · rfl
  · rfl
  · rfl

theorem set_same (g : RegFile) (r : Reg) : g.set r (g r) = g := by
  apply ext
  intro i
  by_cases hr : i = r
  · rw [set_apply, hr]
    split
    case isTrue h0 => rw [h0, reg_zero]
    case isFalse => simp
  · rw [set_ne g hr]

end RegFile

/-! ## State -/

/-- What a run does outside the registers, in order. -/
inductive BusEvent
  | readByte (addr : Word)
  | readHalf (addr : Word)
  | readWord (addr : Word)
  | writeByte (addr : Word) (value : BitVec 8)
  | writeHalf (addr : Word) (value : BitVec 16)
  | writeWord (addr : Word) (value : Word)
  | checkInterrupts (pc : Word)
deriving DecidableEq, Repr

/-- `CPUState`, with the memory `mem` its handlers work on, the accesses made so far and the
static hit count of `psx_unaligned_access`. -/
structure State (M : Type) where
  gpr : RegFile
  pc : Word
  hi : Word
  lo : Word
  cop0 : Reg → Word
  gte : Cop2
  mem : M
  bus : List BusEvent
  faults : ℕ

/-- What the two tiers call: the memory handlers of `CPUState` and the routines of the runtime.
A routine that does not come back (`exit`, `longjmp`) gives `none`. -/
structure Runtime (M : Type) where
  readByte : M → Word → BitVec 8 × M
  readHalf : M → Word → BitVec 16 × M
  readWord : M → Word → Word × M
  writeByte : M → Word → BitVec 8 → M
  writeHalf : M → Word → BitVec 16 → M
  writeWord : M → Word → Word → M
  gteExecute : Cop2 → Word → Option Cop2
  psxSyscall : State M → Word → Option (Bool × State M)
  psxCheckInterrupts : State M → Option (State M)
  /-- `psx_syscall` takes its number from `$a0`. -/
  psxSyscall_code : ∀ s code code', psxSyscall s code = psxSyscall s code'
  /-- An interrupt check only adds to what the run did. -/
  psxCheckInterrupts_bus : ∀ s t, psxCheckInterrupts s = some t → s.bus <+: t.bus

/-- How an instruction ends. -/
inductive Outcome (σ : Type)
  /-- the following instruction is next -/
  | next (s : σ)
  /-- control is handed on at `cpu->pc` -/
  | transfer (s : σ)
  /-- the compiled function returns, `cpu->pc` left as it was -/
  | abandon (s : σ)
  /-- the process ends -/
  | exit

namespace Outcome

variable {σ τ : Type}

def map (f : σ → τ) : Outcome σ → Outcome τ
  | next s => next (f s)
  | transfer s => transfer (f s)
  | abandon s => abandon (f s)
  | exit => exit

def state? : Outcome σ → Option σ
  | next s => some s
  | transfer s => some s
  | abandon s => some s
  | exit => none

@[simp] theorem map_next (f : σ → τ) (s : σ) : (next s).map f = next (f s) := rfl
@[simp] theorem map_transfer (f : σ → τ) (s : σ) : (transfer s).map f = transfer (f s) := rfl
@[simp] theorem map_abandon (f : σ → τ) (s : σ) : (abandon s).map f = abandon (f s) := rfl
@[simp] theorem map_exit (f : σ → τ) : (exit : Outcome σ).map f = exit := rfl

@[simp] theorem state?_next (s : σ) : (next s).state? = some s := rfl
@[simp] theorem state?_transfer (s : σ) : (transfer s).state? = some s := rfl
@[simp] theorem state?_abandon (s : σ) : (abandon s).state? = some s := rfl
@[simp] theorem state?_exit : (exit : Outcome σ).state? = none := rfl

end Outcome

/-! ## Accesses -/

namespace State

variable {M : Type} (rt : Runtime M)

def setGpr (s : State M) (r : Reg) (v : Word) : State M := { s with gpr := s.gpr.set r v }

def log (s : State M) (e : BusEvent) : State M := { s with bus := s.bus ++ [e] }

def readByte (s : State M) (addr : Word) : BitVec 8 × State M :=
  let (v, mem) := rt.readByte s.mem addr
  (v, { s with mem := mem }.log (.readByte addr))

def readHalf (s : State M) (addr : Word) : BitVec 16 × State M :=
  let (v, mem) := rt.readHalf s.mem addr
  (v, { s with mem := mem }.log (.readHalf addr))

def readWord (s : State M) (addr : Word) : Word × State M :=
  let (v, mem) := rt.readWord s.mem addr
  (v, { s with mem := mem }.log (.readWord addr))

def writeByte (s : State M) (addr : Word) (value : BitVec 8) : State M :=
  { s with mem := rt.writeByte s.mem addr value }.log (.writeByte addr value)

def writeHalf (s : State M) (addr : Word) (value : BitVec 16) : State M :=
  { s with mem := rt.writeHalf s.mem addr value }.log (.writeHalf addr value)

def writeWord (s : State M) (addr : Word) (value : Word) : State M :=
  { s with mem := rt.writeWord s.mem addr value }.log (.writeWord addr value)

end State

/-! ## Effects -/

/-- What the tiers are compared on. -/
structure Effect (M : Type) where
  gpr : RegFile
  hi : Word
  lo : Word
  cop0 : Reg → Word
  mem : M
  bus : List BusEvent

def State.effect {M : Type} (s : State M) : Effect M where
  gpr := s.gpr
  hi := s.hi
  lo := s.lo
  cop0 := s.cop0
  mem := s.mem
  bus := s.bus

/-- `none` for a process that has ended. -/
def Outcome.effect {M : Type} (o : Outcome (State M)) : Option (Effect M) :=
  o.state?.map State.effect

/-! ## A machine with plain RAM -/

/-- Byte-addressed memory, little-endian, without devices. -/
abbrev Ram := Word → BitVec 8

namespace Ram

def half (m : Ram) (addr : Word) : BitVec 16 := m (addr + 1) ++ m addr

def word (m : Ram) (addr : Word) : Word := m.half (addr + 2) ++ m.half addr

def setByte (m : Ram) (addr : Word) (v : BitVec 8) : Ram := Function.update m addr v

def setHalf (m : Ram) (addr : Word) (v : BitVec 16) : Ram :=
  (m.setByte addr (v.setWidth 8)).setByte (addr + 1) ((v >>> 8).setWidth 8)

def setWord (m : Ram) (addr : Word) (v : Word) : Ram :=
  (m.setHalf addr (v.setWidth 16)).setHalf (addr + 2) ((v >>> 16).setWidth 16)

end Ram

/-- `psx_syscall` on the two calls it answers itself, EnterCriticalSection and
ExitCriticalSection. -/
def criticalSection (s : State Ram) (_code : Word) : Option (Bool × State Ram) :=
  let sr := s.cop0 12#5
  match s.gpr 4#5 with
  | 1#32 => some (false, { s.setGpr 2 (sr &&& 1) with
      cop0 := Function.update s.cop0 12 (sr &&& ~~~1#32), pc := 0 })
  | 2#32 => some (false, { s with cop0 := Function.update s.cop0 12 (sr ||| 0x0401), pc := 0 })
  | _ => none

/-- RAM without devices: no interrupt is ever pending, and no GTE command is known. -/
def ramRuntime : Runtime Ram where
  readByte m addr := (m addr, m)
  readHalf m addr := (m.half addr, m)
  readWord m addr := (m.word addr, m)
  writeByte := Ram.setByte
  writeHalf := Ram.setHalf
  writeWord := Ram.setWord
  gteExecute _ _ := none
  psxSyscall := criticalSection
  psxCheckInterrupts := some
  psxSyscall_code _ _ _ := rfl
  psxCheckInterrupts_bus s t h := by
    cases h
    exact List.prefix_rfl

/-- A stopped machine over the memory `m`, every register zero. -/
def State.boot (m : Ram) : State Ram where
  gpr := ⟨fun _ => 0, rfl⟩
  pc := 0
  hi := 0
  lo := 0
  cop0 _ := 0
  gte := ⟨fun _ => 0, fun _ => 0⟩
  mem := m
  bus := []
  faults := 0

end PsxRecomp.R3000
