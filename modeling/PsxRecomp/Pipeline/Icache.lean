import Mathlib

/-! What an instruction costs beside its own cycle: the give-back that a load leaves to the
instructions after it, and the fetch cost of the instruction cache with the fetches the emitter
leaves out. -/
namespace PsxRecomp.Pipeline
set_option autoImplicit false

abbrev Word := BitVec 32
abbrev Byte := BitVec 8

/-! ## State -/

/-- The interlock fields of `CPUState`, with the CPU cycles charged so far. -/
structure LoadPipe where
  readAbsorb : ℕ → Byte
  readAbsorbWhich : Byte
  readFudge : Byte
  ldWhichT : Byte
  ldAbsorb : Word
  charged : ℕ

namespace LoadPipe

/-- `cpu->read_absorb[n] = v` -/
def setAbsorb (p : LoadPipe) (n : ℕ) (v : Byte) : LoadPipe :=
  { p with readAbsorb := Function.update p.readAbsorb n v }

def charge (p : LoadPipe) (cycles : ℕ) : LoadPipe := { p with charged := p.charged + cycles }

/-- A read of memory and a missed fetch drop the give-back in progress. -/
def dropGiveBack (p : LoadPipe) : LoadPipe :=
  { p.setAbsorb p.readAbsorbWhich.toNat 0 with readAbsorbWhich := 0 }

end LoadPipe

/-! ## One instruction -/

/-- `psx_cyc_base` -/
def cycBase (p : LoadPipe) : LoadPipe :=
  let w := p.readAbsorbWhich.toNat
  if p.readAbsorb w ≠ 0 then p.setAbsorb w (p.readAbsorb w - 1) else p.charge 1

/-- `psx_cyc_deps`: the registers of the mask give nothing back any more, `$zero` apart. -/
def cycDeps (mask : Word) (p : LoadPipe) : LoadPipe :=
  { p with readAbsorb := fun n => if n ≠ 0 ∧ mask.getLsbD n then 0 else p.readAbsorb n }

/-- `psx_cyc_lds` -/
def cycLds (p : LoadPipe) : LoadPipe :=
  let lw := p.ldWhichT
  { p.setAbsorb lw.toNat (p.ldAbsorb.setWidth 8) with
    readFudge := lw
    readAbsorbWhich := p.readAbsorbWhich ||| (lw &&& 0x1F)
    ldWhichT := 0x20 }

/-- `psx_cyc_step` -/
def cycStep (mask : Word) (p : LoadPipe) : LoadPipe := cycLds (cycDeps mask (cycBase p))

/-- The interlock of a CPU that has just been reset. -/
def LoadPipe.reset : LoadPipe where
  readAbsorb _ := 0
  readAbsorbWhich := 0
  readFudge := 0x20
  ldWhichT := 0x20
  ldAbsorb := 0
  charged := 0

/-! ## Tags -/

/-- `g_psx_icache_tv`: a word's address, with bit 1 set where the word is not valid. -/
abbrev Tags := BitVec 10 → Word

/-- `psx_icache_reset` -/
def resetTags : Tags := fun _ => 0x1

/-- `(addr & 0xFFC) >> 2` -/
def wordIndex (addr : Word) : BitVec 10 := ((addr &&& 0xFFC#32) >>> 2).setWidth 10

/-- `(addr & 0xFF0) >> 2` -/
def lineIndex (addr : Word) : BitVec 10 := ((addr &&& 0xFF0#32) >>> 2).setWidth 10

def lineAddr (addr : Word) : Word := addr &&& 0xFFFFFFF0#32

/-- The place of a word in its line. -/
def wordOf (addr : Word) : Word := (addr &&& 0xC#32) >>> 2

/-- The four tags of a line. -/
def writeLine (tv : Tags) (bidx : BitVec 10) (tag : Word → Word) : Tags :=
  Function.update (Function.update (Function.update (Function.update tv
    bidx (tag 0)) (bidx + 1) (tag 1)) (bidx + 2) (tag 2)) (bidx + 3) (tag 3)

/-- The refill of `psx_icache_fetch_miss`: the words from the missed one to the end of the line
become valid. -/
def refill (tv : Tags) (addr : Word) : Tags :=
  let line := lineAddr addr
  let first := wordOf addr
  writeLine tv (lineIndex addr) fun i =>
    let tag := line ||| i <<< 2 ||| 0x2#32
    if first ≤ i then tag &&& ~~~0x2#32 else tag

/-- `3`, and one cycle a word. -/
def refillCost (addr : Word) : ℕ := 3 + (4 - (wordOf addr).toNat)

/-- `psx_fetch_uncached` -/
def fetchUncached (pc : Word) : Bool := 0xA0000000#32 ≤ pc

/-! ## Fetches and isolated stores -/

/-- `g_psx_icache_active`, `g_ls_replay_active` and whether the whole-call shadow replays
(`s_icache_shadow_state == 2`). -/
structure Gates where
  icacheActive : Bool
  lsReplayActive : Bool
  shadowReplay : Bool

/-- The cache model takes part. -/
def Gates.live (G : Gates) : Bool := !(G.lsReplayActive && !G.shadowReplay) && G.icacheActive

/-- `psx_icache_fetch` -/
def icacheFetch (G : Gates) (addr : Word) (m : Tags × LoadPipe) : Tags × LoadPipe :=
  if !G.live then m
  else if m.1 (wordIndex addr) = addr then m
  else
    let p := m.2.dropGiveBack
    if fetchUncached addr then (m.1, p.charge 4)
    else (refill m.1 addr, p.charge (refillCost addr))

/-- The valid bits an isolated store leaves in its line. -/
def iscValid (biu addr value : Word) : Word :=
  if biu &&& 0x4#32 ≠ 0 then (value <<< ((addr &&& 0x3#32) * 8)) &&& 0xF#32 else 0

/-- `psx_icache_isc_store`, with the control register `biu`. -/
def iscStore (G : Gates) (biu addr value : Word) (tv : Tags) : Tags :=
  if !G.live then tv
  else if biu &&& 0x800#32 = 0 then tv
  else if biu &&& 0x7#32 = 0 then tv
  else writeLine tv (lineIndex addr) fun i =>
    (if iscValid biu addr value &&& (1#32 <<< i) ≠ 0 then 0x0#32 else 0x2#32) |||
      lineAddr addr ||| i <<< 2

/-- What stays valid behind the store is the end of the line, or nothing. -/
def clearsFront (biu addr value : Word) : Prop :=
  ∀ i < 3, (iscValid biu addr value).getLsbD i → (iscValid biu addr value).getLsbD (i + 1)

/-- The tags a run of fetches and isolated stores that clear valid bits can leave. -/
inductive Reachable : Tags → Prop
  | reset : Reachable resetTags
  | fetch {tv : Tags} (G : Gates) (addr : Word) (p : LoadPipe) (h : Reachable tv) :
      Reachable (icacheFetch G addr (tv, p)).1
  | store {tv : Tags} (G : Gates) (biu addr value : Word) (hc : clearsFront biu addr value)
      (h : Reachable tv) : Reachable (iscStore G biu addr value tv)

/-! ## The emitted fetches -/

/-- The condition of `emit_icache_fetch`: an uncached address, a block leader or a line start. -/
def emitsFetch (leader : Bool) (pc : Word) : Bool :=
  fetchUncached pc || leader || pc &&& 0xC#32 = 0#32

/-- What follows the fetch in the code of an instruction. It may read and change everything but
the tags. -/
abbrev Body (σ : Type) := LoadPipe × σ → LoadPipe × σ

/-- An instruction of the path: whether it leads a block, and its body. -/
structure Insn (σ : Type) where
  leader : Bool
  body : Body σ

/-- The machine the path runs on. -/
structure Machine (σ : Type) where
  tv : Tags
  pipe : LoadPipe
  rest : σ

variable {σ : Type}

def Machine.fetch (G : Gates) (pc : Word) (m : Machine σ) : Machine σ :=
  let r := icacheFetch G pc (m.tv, m.pipe)
  { m with tv := r.1, pipe := r.2 }

def Machine.act (b : Body σ) (m : Machine σ) : Machine σ :=
  let r := b (m.pipe, m.rest)
  { m with pipe := r.1, rest := r.2 }

/-- A fetch at every instruction, as the interpreter does. -/
def runFetching (G : Gates) : Word → List (Insn σ) → Machine σ → Machine σ
  | _, [], m => m
  | pc, i :: path, m => runFetching G (pc + 4) path ((m.fetch G pc).act i.body)

/-- The emitted path. -/
def runEmitted (G : Gates) : Word → List (Insn σ) → Machine σ → Machine σ
  | _, [], m => m
  | pc, i :: path, m =>
    runEmitted G (pc + 4) path
      ((if emitsFetch i.leader pc then m.fetch G pc else m).act i.body)

/-- The address of an instruction. -/
structure CodeAddr where
  addr : Word
  aligned : addr &&& 0x3#32 = 0#32

end PsxRecomp.Pipeline
