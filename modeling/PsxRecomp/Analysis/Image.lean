import PsxRecomp.R3000.Machine
import PsxRecomp.Library.WordSet

/-! The executable image that the exact-entry analysis reads, and what its instruction words say. -/
namespace PsxRecomp.Analysis
open R3000
set_option autoImplicit false

/-- `PS1Executable`: `validate_header` keeps the payload inside one RAM window. -/
structure Image where
  load : Word
  data : List (BitVec 8)
  guardBytes : Word
  window : load.toNat + data.length ≤ 0xA0800000

namespace Image
variable (img : Image)

def endAddress : Word := img.load + BitVec.ofNat 32 img.data.length

/-- One past the last byte that may be discovered; behind it lie guard words for delay slots. -/
def analysisEnd : Word :=
  if img.guardBytes < img.endAddress - img.load then img.endAddress - img.guardBytes else img.endAddress

def readWord (address : Word) : Option Word :=
  if address < img.load ∨ img.endAddress ≤ address then none
  else
    let offset := (address - img.load).toNat
    if img.data.length ≤ offset + 3 then none
    else some (img.data.getD (offset + 3) 0 ++ img.data.getD (offset + 2) 0 ++
      img.data.getD (offset + 1) 0 ++ img.data.getD offset 0)

/-- `in_exe` -/
def inExe (addr : Word) : Bool := img.load ≤ addr ∧ addr < img.analysisEnd ∧ addr &&& 3 = 0

end Image

/-! ## Instruction words -/

/-- `is_valid_mips_word` -/
def isValidMipsWord (instr : Word) : Bool :=
  if instr = 0xFFFFFFFF ∨ instr = 0xFFFFFFFD then false
  else if opField instr = 0x00 then
    functField instr ∈ ([0x00, 0x02, 0x03, 0x04, 0x06, 0x07, 0x08, 0x09, 0x0C, 0x0D, 0x10, 0x11, 0x12, 0x13,
      0x18, 0x19, 0x1A, 0x1B, 0x20, 0x21, 0x22, 0x23, 0x24, 0x25, 0x26, 0x27, 0x2A, 0x2B] : List (BitVec 6))
  else if opField instr = 0x01 then rtField instr ∈ ([0x00, 0x01, 0x10, 0x11] : List Reg)
  else opField instr ∈ ([0x02, 0x03, 0x04, 0x05, 0x06, 0x07, 0x08, 0x09, 0x0A, 0x0B, 0x0C, 0x0D, 0x0E, 0x0F,
    0x10, 0x12, 0x20, 0x21, 0x22, 0x23, 0x24, 0x25, 0x26, 0x28, 0x29, 0x2A, 0x2B, 0x2E,
    0x30, 0x32, 0x38, 0x3A] : List (BitVec 6))

/-- `is_branch_or_jump` -/
def isBranchOrJump (instr : Word) : Bool :=
  let op := opField instr
  op = 0x02 ∨ op = 0x03 ∨ (0x04 ≤ op ∧ op ≤ 0x07) ∨ op = 0x01 ∨
    (op = 0x00 ∧ (functField instr = 0x08 ∨ functField instr = 0x09)) ∨
    ((op = 0x11 ∨ op = 0x12) ∧ rsField instr = 0x08)

def exactBranchTarget (pc instr : Word) : Word := pc + 4 + simm16Field instr <<< 2

def exactJumpTarget (pc instr : Word) : Word := ((pc + 4) &&& 0xF0000000) ||| (target26 instr <<< 2)

def exactInstructionWritesGpr (instr : Word) (reg : Reg) : Bool :=
  let op := opField instr
  if reg = 0 then false
  else if op = 0x00 then
    if functField instr ∈ ([0x08, 0x0C, 0x0D, 0x11, 0x13, 0x18, 0x19, 0x1A, 0x1B] : List (BitVec 6)) then false
    else rdField instr = reg
  else if op = 0x03 then reg = 31
  else if op = 0x01 ∧ (rtField instr = 0x10 ∨ rtField instr = 0x11) then reg = 31
  else if (0x08 ≤ op ∧ op ≤ 0x0F) ∨ (0x20 ≤ op ∧ op ≤ 0x26) ∨ op = 0x30 ∨ op = 0x32 then rtField instr = reg
  else if (op = 0x10 ∨ op = 0x12) ∧ (rsField instr = 0 ∨ rsField instr = 2) then rtField instr = reg
  else false

inductive ExactCfKind
  | normal | branch | branchNever | branchNeverLikely | jump | jal | jrRa | jrOther | jalr
deriving DecidableEq, Repr

structure ExactCf where
  kind : ExactCfKind
  target : Word
deriving DecidableEq

/-- A link-true comparison with `$zero` is a call, and a comparison that the registers decide is a jump
or no branch at all. -/
def exactClassifyCf (pc instr : Word) : ExactCf :=
  let op := opField instr
  let rs := rsField instr
  let rt := rtField instr
  let branch := exactBranchTarget pc instr
  if op = 0x00 ∧ functField instr = 0x08 then ⟨if rs = 31 then .jrRa else .jrOther, 0⟩
  else if op = 0x00 ∧ functField instr = 0x09 then ⟨.jalr, 0⟩
  else if op = 0x02 then ⟨.jump, exactJumpTarget pc instr⟩
  else if op = 0x03 then ⟨.jal, exactJumpTarget pc instr⟩
  else if (op = 0x04 ∨ op = 0x14) ∧ rs = rt then ⟨.jump, branch⟩
  else if op = 0x05 ∧ rs = rt then ⟨.branchNever, 0⟩
  else if op = 0x15 ∧ rs = rt then ⟨.branchNeverLikely, 0⟩
  else if op = 0x06 ∧ rs = 0 then ⟨.jump, branch⟩
  else if op = 0x07 ∧ rs = 0 then ⟨.branchNever, 0⟩
  else if op = 0x16 ∧ rs = 0 then ⟨.jump, branch⟩
  else if op = 0x17 ∧ rs = 0 then ⟨.branchNeverLikely, 0⟩
  else if op = 0x01 ∧ rs = 0 ∧ (rt = 0x00 ∨ rt = 0x10) then ⟨.branchNever, 0⟩
  else if op = 0x01 ∧ rs = 0 ∧ (rt = 0x02 ∨ rt = 0x12) then ⟨.branchNeverLikely, 0⟩
  else if op = 0x01 ∧ rs = 0 ∧ (rt = 0x01 ∨ rt = 0x03) then ⟨.jump, branch⟩
  else if op = 0x01 ∧ rs = 0 ∧ (rt = 0x11 ∨ rt = 0x13) then ⟨.jal, branch⟩
  else if op = 0x01 ∨ (0x04 ≤ op ∧ op ≤ 0x07) ∨ (0x14 ≤ op ∧ op ≤ 0x17) then ⟨.branch, branch⟩
  else if (op = 0x11 ∨ op = 0x12) ∧ rs = 0x08 then ⟨.branch, branch⟩
  else ⟨.normal, 0⟩

/-- The kinds whose target the word names. -/
def ExactCf.direct (cf : ExactCf) : Bool := cf.kind = .branch ∨ cf.kind = .jump ∨ cf.kind = .jal

/-- `for (pc = lo; pc < hi; pc += 4)` -/
def span (lo hi : Word) : List Word :=
  if lo < hi then (List.range (((hi - lo).toNat + 3) / 4)).map fun i => lo + 4 * BitVec.ofNat 32 i else []

end PsxRecomp.Analysis
