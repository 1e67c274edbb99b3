import PsxRecomp.Library.Recording
import PsxRecomp.Library.Cells
import PsxRecomp.R3000.Machine

/-! Data shards: the recorder behind the memory handlers, the shard a finished capture leaves, and its
replay in place of the function. -/
namespace PsxRecomp.DataShards
open R3000 (RegFile Reg)
set_option autoImplicit false

abbrev Byte := BitVec 8
abbrev Word := BitVec 32

/-! ## Memory -/

def ramBytes : ℕ := 0x800000
def spBytes : ℕ := 1024
/-- The unified index space: the RAM backing, then the scratchpad. -/
def space : ℕ := ramBytes + spBytes
def maxBytes : ℕ := 4 * 1024 * 1024

/-- The live main RAM: 2 MB, or the 8 MB of the enhancement. -/
structure Geometry where
  mask : Word
  live : mask = 0x1FFFFF ∨ mask = 0x7FFFFF

/-- RAM and scratchpad by unified index. -/
abbrev Cells := ℕ → Byte

inductive Index where
  | cell (i : ℕ)
  | untracked
  | impure
  deriving DecidableEq

/-- `ds_index_of` -/
def indexOf (g : Geometry) (addr : Word) : Index :=
  let phys := addr &&& 0x1FFFFFFF
  if phys < 0x800000 then .cell (phys &&& 0x7FFFFF &&& g.mask).toNat
  else if 0x1F800000 ≤ phys ∧ phys < 0x1F800400 then .cell (ramBytes + (phys.toNat - 0x1F800000))
  else if 0x1F801000 ≤ phys ∧ phys < 0x1F803000 then .impure
  else if 0x1FC00000 ≤ phys then .untracked
  else .impure

/-- Where the memory handlers find RAM and scratchpad. -/
def Mapped (addr : Word) : Prop :=
  addr < 0xC0000000 ∧ (addr &&& 0x1FFFFFFF < 0x800000 ∨
    0x1F800000 ≤ addr &&& 0x1FFFFFFF ∧ addr &&& 0x1FFFFFFF < 0x1F800400)

instance (addr : Word) : Decidable (Mapped addr) := instDecidableAnd

/-- The byte that the handlers read and write at a mapped address. -/
def cellOf (g : Geometry) (addr : Word) : ℕ :=
  let phys := addr &&& 0x1FFFFFFF
  if phys < 0x800000 then (phys &&& g.mask).toNat else ramBytes + (phys.toNat - 0x1F800000)

inductive Width where
  | byte
  | half
  | word
  deriving DecidableEq

def Width.bytes : Width → ℕ
  | .byte => 1
  | .half => 2
  | .word => 4

/-- An access of a hooked body: aligned, and to RAM or scratchpad. -/
structure Access where
  width : Width
  addr : Word
  mapped : Mapped addr
  aligned : addr.toNat % width.bytes = 0

def Access.cells (g : Geometry) (a : Access) : List ℕ :=
  (List.range a.width.bytes).map fun j => cellOf g a.addr + j

/-- A value from its bytes, low byte first. -/
def ofBytes (bs : List Byte) : Word := bs.foldr (fun b v => b.setWidth 32 ||| v <<< (8 : ℕ)) 0

/-- The byte a store leaves in each of its cells. -/
def Access.stored (g : Geometry) (a : Access) (val : Word) : Cells :=
  fun i => (val >>> (8 * (i - cellOf g a.addr) : ℕ)).setWidth 8

/-! ## Recorder -/

structure Recorder where
  rdFlag : ℕ → Bool
  wrFlag : ℕ → Bool
  rdOrig : Cells
  bytesTouched : ℕ
  poisoned : Bool

namespace Recorder

/-- `ds_recorder_reset` -/
def reset (r : Recorder) : Recorder := ⟨fun _ => false, fun _ => false, r.rdOrig, 0, false⟩

def noteReadCells (m : Cells) : ℕ → ℕ → Recorder → Recorder
  | 0, _, r => r
  | n + 1, idx, r =>
    if r.wrFlag idx || r.rdFlag idx then noteReadCells m n (idx + 1) r
    else
      let r := { r with
        rdFlag := Function.update r.rdFlag idx true
        rdOrig := Function.update r.rdOrig idx (m idx)
        bytesTouched := r.bytesTouched + 1 }
      if maxBytes < r.bytesTouched then { r with poisoned := true }
      else noteReadCells m n (idx + 1) r

/-- `ds_note_read` -/
def noteRead (g : Geometry) (m : Cells) (addr : Word) (size : ℕ) (r : Recorder) : Recorder :=
  if r.poisoned then r
  else match indexOf g addr with
    | .untracked => r
    | .impure => { r with poisoned := true }
    | .cell idx => noteReadCells m size idx r

def noteWriteCells : ℕ → ℕ → Recorder → Recorder
  | 0, _, r => r
  | n + 1, idx, r =>
    if r.wrFlag idx then noteWriteCells n (idx + 1) r
    else
      let r := { r with
        wrFlag := Function.update r.wrFlag idx true
        bytesTouched := r.bytesTouched + 1 }
      if maxBytes < r.bytesTouched then { r with poisoned := true }
      else noteWriteCells n (idx + 1) r

/-- `ds_note_write` -/
def noteWrite (g : Geometry) (addr : Word) (size : ℕ) (r : Recorder) : Recorder :=
  if r.poisoned then r
  else match indexOf g addr with
    | .untracked => r
    | .impure => { r with poisoned := true }
    | .cell idx => noteWriteCells size idx r

/-- What `psx_read_byte`, `psx_read_half` and `psx_read_word` tell the recorder. -/
def hearLoad (g : Geometry) (m : Cells) (a : Access) (r : Recorder) : Recorder :=
  match a.width with
  | .byte => r
  | .half => r.noteRead g m a.addr 2
  | .word => r.noteRead g m a.addr 4

/-- What `psx_write_byte`, `psx_write_half` and `psx_write_word` tell it. -/
def hearStore (g : Geometry) (a : Access) (r : Recorder) : Recorder :=
  match a.width with
  | .byte => r
  | .half => r.noteWrite g a.addr 2
  | .word => r.noteWrite g a.addr 4

end Recorder

/-! ## Bodies -/

structure Regs where
  gpr : RegFile
  hi : Word
  lo : Word

/-- What a body does next. -/
inductive Step (σ : Type)
  | done (r : Regs)
  | load (a : Access) (k : Word → σ)
  | store (a : Access) (val : Word) (s : σ)

/-- A deterministic function body over the registers and the memory. -/
structure Body where
  Local : Type
  start : Regs → Local
  next : Local → Step Local

def Step.action {σ : Type} (g : Geometry) : Step σ → Recording.Action Access ℕ Byte Regs σ
  | .done r => .done r
  | .load a k => .load a fun bs => k (ofBytes bs)
  | .store a val s => .store a (a.stored g val) s

/-- A run of the body to its end. -/
abbrev Body.Runs (g : Geometry) (b : Body) :
    b.Local → Cells → List (Recording.Use Access) → Regs → Cells → Prop :=
  Recording.Runs (Access.cells g) fun s => (b.next s).action g

/-- A run with the recorder on. -/
inductive Captures (g : Geometry) (b : Body) : b.Local → Cells → Recorder →
    List (Recording.Use Access) → Regs → Cells → Recorder → Prop
  | done (s : b.Local) (m : Cells) (q : Recorder) (r : Regs) (h : b.next s = .done r) :
      Captures g b s m q [] r m q
  | load (s : b.Local) (m : Cells) (q : Recorder) (a : Access) (k : Word → b.Local)
      (tr : List (Recording.Use Access)) (r : Regs) (m' : Cells) (q' : Recorder)
      (h : b.next s = .load a k)
      (hr : Captures g b (k (ofBytes ((a.cells g).map m))) m (q.hearLoad g m a) tr r m' q') :
      Captures g b s m q (.load a :: tr) r m' q'
  | store (s : b.Local) (m : Cells) (q : Recorder) (a : Access) (val : Word) (s' : b.Local)
      (tr : List (Recording.Use Access)) (r : Regs) (m' : Cells) (q' : Recorder)
      (h : b.next s = .store a val s')
      (hr : Captures g b s' (Recording.put (Access.cells g) a (a.stored g val) m) (q.hearStore g a) tr r
        m' q') :
      Captures g b s m q (.store a :: tr) r m' q'

/-! ## Shards -/

structure Range where
  idx : ℕ
  bytes : List Byte

/-- `ds_build_ranges`, over the indices from `i` on. -/
def scan (flag : ℕ → Bool) (byte : Cells) : ℕ → ℕ → Option Range → List Range
  | 0, _, opened => opened.toList
  | n + 1, i, opened =>
    if flag i then
      match opened with
      | some r => scan flag byte n (i + 1) (some { r with bytes := r.bytes ++ [byte i] })
      | none => scan flag byte n (i + 1) (some ⟨i, [byte i]⟩)
    else opened.toList ++ scan flag byte n (i + 1) none

def buildRanges (flag : ℕ → Bool) (byte : Cells) : List Range := scan flag byte space 0 none

/-- The caller-visible registers: `$at`, `$v0-$v1`, `$a0-$a3`, `$t0-$t9`. -/
def visible : List Reg := [1, 2, 3, 4, 5, 6, 7, 8, 9, 10, 11, 12, 13, 14, 15, 24, 25]

def argRegs : List Reg := [4, 5, 6, 7]

structure Shard where
  key : Word
  args : List Word
  rd : List Range
  wr : List Range
  regs : List Word
  hi : Word
  lo : Word

/-- `ds_finalize` -/
def finalize (key : Word) (arm r : Regs) (m : Cells) (q : Recorder) : Shard where
  key := key
  args := argRegs.map arm.gpr
  rd := buildRanges q.rdFlag q.rdOrig
  wr := buildRanges q.wrFlag m
  regs := visible.map r.gpr
  hi := r.hi
  lo := r.lo

/-- `psx_datashard_ret` at the end of the armed body. -/
def datashardRet (key : Word) (arm r : Regs) (m : Cells) (q : Recorder) : Option Shard :=
  if r.gpr 29 ≠ arm.gpr 29 ∨ r.gpr 31 ≠ arm.gpr 31 then none
  else if q.poisoned then none
  else some (finalize key arm r m q)

/-! ## Replay -/

/-- `memcmp` against the array the range starts in; nothing when it runs off the array's end. -/
def Range.verify (m : Cells) (r : Range) : Option Bool :=
  if r.idx < ramBytes ∧ ramBytes < r.idx + r.bytes.length then none
  else some ((List.range r.bytes.length).map (fun j => m (r.idx + j)) = r.bytes)

/-- `ds_verify` -/
def verify (m : Cells) : List Range → Option Bool
  | [] => some true
  | r :: rest => do
    let same ← r.verify m
    if same then verify m rest else pure false

/-- `psx_write_byte` at an address of the replay. -/
def writeByte (g : Geometry) (va : Word) (b : Byte) (m : Cells) : Option Cells :=
  if Mapped va then some (Function.update m (cellOf g va) b) else none

def Range.base (r : Range) : Word :=
  if r.idx < ramBytes then 0x80000000 + BitVec.ofNat 32 r.idx
  else 0x1F800000 + BitVec.ofNat 32 (r.idx - ramBytes)

def writeBytes (g : Geometry) : Word → List Byte → Cells → Option Cells
  | _, [], m => some m
  | va, b :: bs, m => do
    let m ← writeByte g va b m
    writeBytes g (va + 1) bs m

def writeRanges (g : Geometry) : List Range → Cells → Option Cells
  | [], m => some m
  | r :: rest, m => do
    let m ← writeBytes g r.base r.bytes m
    writeRanges g rest m

def restore (s : Shard) (t : Regs) : Regs where
  gpr := (visible.zip s.regs).foldl (fun g p => g.set p.1 p.2) t.gpr
  hi := s.hi
  lo := s.lo

/-- `ds_apply`, without the credit of guest cycles. -/
def apply (g : Geometry) (s : Shard) (t : Regs) (m : Cells) : Option (Regs × Cells) := do
  let m ← writeRanges g s.wr m
  pure (restore s t, m)

/-- What `psx_datashard_enter` comes to: the body runs natively, a shard is replayed, or a comparison
runs off an array. -/
inductive Entry where
  | native
  | replay (s : Shard)
  | stray

/-- The search of `psx_datashard_enter`. -/
def enter (key : Word) (t : Regs) (m : Cells) : List Shard → Entry
  | [] => .native
  | s :: rest =>
    if s.key ≠ key ∨ s.args ≠ argRegs.map t.gpr then enter key t m rest
    else match verify m s.rd with
      | some true => .replay s
      | some false => enter key t m rest
      | none => .stray

end PsxRecomp.DataShards
