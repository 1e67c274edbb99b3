import Mathlib
import PsxRecomp.Analysis.Image

/-! The resolvers of indirect jumps: a constant in a register, the bounded switch, the computed stride
and the table that ends where its lowest target begins. -/
namespace PsxRecomp.Analysis
open R3000
set_option autoImplicit false

local instance opcode_lawfulBEq : LawfulBEq (BitVec 6) := inferInstance

/-- `ExactJumpTable`: the targets with their runtime and image addresses. -/
structure ExactJumpTable where
  tableBase : Word
  tableCount : Word
  targets : List (Word × Word)
  stride : Word
  selfLimited : Bool
deriving DecidableEq

section Resolvers
variable (img : Image) (mapped : Word → Word) (entry hardCap : Word)

def isControl (pc instr : Word) : Bool := (exactClassifyCf pc instr).kind ≠ .normal

def inDelaySlot (pc : Word) : Bool :=
  entry + 4 ≤ pc ∧ (img.readWord (pc - 4)).any fun prev => isControl (pc - 4) prev

/-- The target of a direct transfer, where there is one. -/
def directTargetAt (pc : Word) : Option Word :=
  (img.readWord pc).bind fun instr =>
    let cf := exactClassifyCf pc instr
    if cf.direct then some cf.target else none

/-- The encoding `jr $rs`. -/
def isJr (jrPc : Word) (jrRs : Reg) : Bool := img.readWord jrPc = some ((jrRs.setWidth 32 <<< 21) ||| 0x08)

/-! ## A constant in a register -/

/-- A LUI in the delay slot of a transfer is no local definition. -/
def luiInSlot (pc : Word) : Bool :=
  entry + 4 ≤ pc ∧ (img.readWord (pc - 4)).any fun prev =>
    isBranchOrJump prev ∨ (0x14 ≤ opField prev ∧ opField prev ≤ 0x17)

/-- `crossed_inbound_boundary` -/
def entersSuffix (luiPc transferPc : Word) : Bool :=
  (span entry transferPc).any fun source =>
    (directTargetAt img source).any fun target => luiPc < target ∧ target ≤ transferPc

/-- The loop over `count`, with the low half found so far and whether it is added. -/
def constantScan (transferPc : Word) (reg : Reg) : ℕ → Word → Option (Bool × Word) → Option Word
  | 0, _, _ => none
  | n + 1, count, low =>
    let bytes := count * 4
    if transferPc < entry + bytes then none
    else
      let pc := transferPc - bytes
      match img.readWord pc with
      | none => none
      | some instr =>
        let op := opField instr
        if low = none ∧ (op = 0x09 ∨ op = 0x0D) ∧ rsField instr = reg ∧ rtField instr = reg then
          constantScan transferPc reg n (count + 1) (some (op = 0x09, instr &&& 0xFFFF))
        else if op = 0x0F ∧ rtField instr = reg then
          if luiInSlot img entry pc then none
          else if entersSuffix img entry pc transferPc then none
          else
            let upper := imm16Field instr <<< 16
            match low with
            | none => some upper
            | some (true, v) => some (upper + (v.extractLsb' 0 16).signExtend 32)
            | some (false, v) => some (upper ||| v)
        else if exactInstructionWritesGpr instr reg then none
        else if isBranchOrJump instr then none
        else constantScan transferPc reg n (count + 1) low

def exactResolveConstantTransfer (transferPc : Word) (targetReg : Reg) : Option Word :=
  constantScan img entry transferPc targetReg 16 1 none

/-! ## The bounded switch -/

/-- The dependency chain of a switch: `sltiu; beq; [lui; addiu | nop]; sll; addu; lw; [nop]; jr`. -/
structure Dispatch where
  lwPc : Word
  lwBase : Reg
  lwOffset : Word
  adduPc : Word
  sllPc : Word
  indexReg : Reg
  scaledReg : Reg
  baseReg : Reg
  scheduledBase : Bool
  guardPc : Word
  boundPc : Word
  boundReg : Reg
  count : Word
  guardTarget : Word

/-- The load in front of the `jr`, past one NOP. -/
def loadBefore (jrPc : Word) : Option (Word × Word) :=
  let pc := jrPc - 4
  if pc < entry then none
  else
    match img.readWord pc with
    | none => none
    | some word =>
      if word = 0 then
        if pc < entry + 4 then none else (img.readWord (pc - 4)).map fun w => (pc - 4, w)
      else some (pc, word)

/-- The scheduled form: LUI in the slot of the bounds branch, and the ADDIU behind it. -/
def scheduledForm (jrPc lwPc sllPc : Word) (baseReg indexReg : Reg) (beforeScale : Word) : Bool :=
  lwPc = jrPc - 8 ∧ entry + 16 ≤ sllPc ∧ (img.readWord (sllPc - 8)).any fun upperWord =>
    let upperReg := rtField upperWord
    opField upperWord = 0x0F ∧ rsField upperWord = 0 ∧ upperReg ≠ 0 ∧
      opField beforeScale = 0x09 ∧ rsField beforeScale = upperReg ∧ rtField beforeScale = baseReg ∧
      upperReg ≠ indexReg ∧ baseReg ≠ indexReg

def matchDispatch (jrPc : Word) (jrRs : Reg) : Option Dispatch := do
  let (lwPc, lwWord) ← loadBefore img entry jrPc
  let lwBase := rsField lwWord
  guard (opField lwWord = 0x23 ∧ rtField lwWord = jrRs ∧ lwBase ≠ 0 ∧ entry + 8 ≤ lwPc ∧
    inDelaySlot img entry lwPc = false)
  let adduPc := lwPc - 4
  let sllPc := adduPc - 4
  let addu ← img.readWord adduPc
  let sll ← img.readWord sllPc
  let indexReg := rtField sll
  let scaledReg := rdField sll
  guard (opField addu = 0x00 ∧ functField addu = 0x21 ∧ shamtField addu = 0 ∧ rdField addu = lwBase ∧
    opField sll = 0x00 ∧ functField sll = 0x00 ∧ rsField sll = 0 ∧ shamtField sll = 2 ∧
    indexReg ≠ 0 ∧ scaledReg ≠ 0 ∧ (scaledReg = rsField addu ∨ scaledReg = rtField addu))
  let baseReg := if scaledReg = rsField addu then rtField addu else rsField addu
  guard (baseReg ≠ 0 ∧ baseReg ≠ scaledReg ∧ inDelaySlot img entry adduPc = false ∧ entry + 12 ≤ sllPc)
  let beforeScale ← img.readWord (sllPc - 4)
  let scheduledBase := decide (beforeScale ≠ 0)
  guard (scheduledBase = true → scheduledForm img entry jrPc lwPc sllPc baseReg indexReg beforeScale)
  let guardPc := if scheduledBase then sllPc - 12 else sllPc - 8
  let boundPc := if scheduledBase then sllPc - 16 else sllPc - 12
  let guardWord ← img.readWord guardPc
  let boundWord ← img.readWord boundPc
  let boundReg := if rsField guardWord = 0 then rtField guardWord else rsField guardWord
  let count := imm16Field boundWord
  guard (opField guardWord = 0x04 ∧ boundReg ≠ 0 ∧ (rsField guardWord = 0 ∨ rtField guardWord = 0))
  guard (opField boundWord = 0x0B ∧ rsField boundWord = indexReg ∧ rtField boundWord = boundReg ∧
    boundReg ≠ indexReg ∧ count ≠ 0 ∧ count < 512 ∧ inDelaySlot img entry boundPc = false)
  let guardTarget := exactBranchTarget guardPc guardWord
  guard (guardTarget &&& 3 = 0 ∧ entry ≤ guardTarget ∧ guardTarget < hardCap ∧
    ¬(sllPc ≤ guardTarget ∧ guardTarget < jrPc + 8) ∧
    ¬(scheduledBase = true ∧ boundPc < guardTarget ∧ guardTarget < jrPc + 8))
  return { lwPc, lwBase, lwOffset := simm16Field lwWord, adduPc, sllPc, indexReg, scaledReg, baseReg,
           scheduledBase, guardPc, boundPc, boundReg, count, guardTarget }

/-- The backward scan for a write of a register: `none` at an unreadable word. -/
def nearestWrite (reg : Reg) (usePc : Word) : ℕ → Word → Option (Option (Word × Word))
  | 0, _ => some none
  | n + 1, back =>
    if usePc < entry + back * 4 then some none
    else
      match img.readWord (usePc - back * 4) with
      | none => none
      | some word =>
        if exactInstructionWritesGpr word reg then some (some (usePc - back * 4, word))
        else nearestWrite reg usePc n (back + 1)

/-- The definition of the table base; a `lowPc` or `luiPc` of 0 is none. -/
structure BaseDef where
  lowPc : Word
  sourceReg : Reg
  low : Word
  luiPc : Word
  upper : Word

def baseWrite (d : Dispatch) : Option BaseDef := do
  match ← nearestWrite img entry d.baseReg d.adduPc 32 1 with
  | none => some { lowPc := 0, sourceReg := d.baseReg, low := 0, luiPc := 0, upper := 0 }
  | some (pc, word) =>
    if opField word = 0x09 ∧ rtField word = d.baseReg ∧ rsField word ≠ 0 then
      some { lowPc := pc, sourceReg := rsField word, low := simm16Field word, luiPc := 0, upper := 0 }
    else if opField word = 0x0F ∧ rsField word = 0 ∧ rtField word = d.baseReg then
      some { lowPc := 0, sourceReg := d.baseReg, low := 0, luiPc := pc, upper := imm16Field word <<< 16 }
    else none

/-- The LUI behind an ADDIU. -/
def sourceWrite (b : BaseDef) : Option BaseDef :=
  if b.lowPc = 0 then some b
  else
    match nearestWrite img entry b.sourceReg b.lowPc 32 1 with
    | none => none
    | some none => some b
    | some (some (pc, word)) =>
      if opField word = 0x0F ∧ rsField word = 0 ∧ rtField word = b.sourceReg then
        some { b with luiPc := pc, upper := imm16Field word <<< 16 }
      else none

/-- A direct edge from in front of a definition to behind it. -/
def inboundSkips (defPc usePc : Word) : Bool :=
  (span entry defPc).any fun source =>
    (img.readWord source).isNone ∨
      (directTargetAt img source).any fun target => defPc < target ∧ target ≤ usePc

def hasCallBetween (lo hi : Word) : Bool :=
  (span lo hi).any fun pc =>
    match img.readWord pc with
    | none => true
    | some word =>
      let kind := (exactClassifyCf pc word).kind
      kind = .jal ∨ kind = .jalr

def writesBetween (lo hi : Word) (reg : Reg) : Bool :=
  (span lo hi).any fun pc =>
    match img.readWord pc with
    | none => true
    | some word => exactInstructionWritesGpr word reg

/-- The table base, from definitions that are local, unskippable and unclobbered. -/
def baseDef (d : Dispatch) : Option BaseDef := do
  let b ← (baseWrite img entry d).bind (sourceWrite img entry)
  guard (d.scheduledBase = true → b.luiPc = d.guardPc + 4 ∧ b.lowPc = d.sllPc - 4)
  guard (b.luiPc ≠ 0 ∧ ¬(inDelaySlot img entry b.luiPc = true ∧ d.scheduledBase = false) ∧
    ¬(b.lowPc ≠ 0 ∧ inDelaySlot img entry b.lowPc = true) ∧
    inboundSkips img entry b.luiPc d.adduPc = false ∧
    ¬(b.lowPc ≠ 0 ∧ inboundSkips img entry b.lowPc d.adduPc = true) ∧
    hasCallBetween img b.luiPc d.adduPc = false)
  guard ((span (b.luiPc + 4) d.sllPc).all fun pc =>
    (img.readWord pc).any fun word => pc = d.guardPc ∨ isControl pc word = false)
  let defEnd := if b.lowPc ≠ 0 then b.lowPc + 4 else b.luiPc + 4
  guard (writesBetween img defEnd d.adduPc d.baseReg = false ∧
    ¬(b.lowPc ≠ 0 ∧ writesBetween img (b.luiPc + 4) b.lowPc b.sourceReg = true))
  return b

/-- One slot of the table. -/
def tableTarget (producerLo producerHi jrPc : Word) (d : Dispatch) (runtimeBase i : Word) :
    Option (Word × Word) := do
  let imageSlot := mapped (runtimeBase + i * 4)
  guard (producerLo ≤ imageSlot ∧ imageSlot < producerHi ∧ 4 ≤ producerHi - imageSlot)
  let runtimeTarget ← img.readWord imageSlot
  guard (runtimeTarget &&& 3 = 0)
  let imageTarget := mapped runtimeTarget
  guard (entry ≤ imageTarget ∧ imageTarget < hardCap ∧
    ¬(d.scheduledBase = true ∧ d.boundPc < imageTarget ∧ imageTarget < jrPc + 8) ∧
    producerLo ≤ imageTarget ∧ imageTarget < producerHi ∧ imageTarget &&& 3 = 0)
  let first ← img.readWord imageTarget
  guard (isValidMipsWord first)
  return (runtimeTarget, imageTarget)

/-- What the walk over the case blocks goes on with, and the slots it takes in. -/
def caseNext (pc : Word) : List Word × List Word :=
  match img.readWord pc with
  | none => ([], [])
  | some word =>
    let cf := exactClassifyCf pc word
    match cf.kind with
    | .normal => ([pc + 4], [])
    | .branch => ([pc + 8, cf.target], [pc + 4])
    | .branchNever => ([pc + 8], [pc + 4])
    | .branchNeverLikely => ([pc + 8], [])
    | .jump => ([cf.target], [pc + 4])
    | .jal | .jalr => ([pc + 8], [pc + 4])
    | .jrRa | .jrOther => ([], [pc + 4])

/-- `case_reachable` -/
def caseReachable (producerLo producerHi : Word) : List Word → Finset Word → Finset Word
  | [], reach => reach
  | pc :: work, reach =>
    if 2048 ≤ reach.card then reach
    else if pc ∉ reach ∧ (entry ≤ pc ∧ pc < hardCap ∧ producerLo ≤ pc ∧ pc < producerHi ∧
        (img.readWord pc).any isValidMipsWord) then
      caseReachable producerLo producerHi (work ++ (caseNext img pc).1)
        (insert pc reach ∪ (caseNext img pc).2.toFinset)
    else caseReachable producerLo producerHi work reach
termination_by work reach => (2048 - reach.card, work.length)
decreasing_by
  · apply Prod.Lex.left
    have hgrow : (insert pc reach).card ≤ (insert pc reach ∪ (caseNext img pc).2.toFinset).card :=
      Finset.card_le_card Finset.subset_union_left
    rw [Finset.card_insert_of_notMem (by tauto)] at hgrow
    omega
  · exact Prod.Lex.right _ (Nat.lt_succ_self _)

/-- No direct edge from outside the dispatch, but for those of the case blocks, enters it behind
`protected_pc`. -/
def entryProtected (jrPc protectedPc : Word) (scheduledBase : Bool) (reach : Finset Word) : Bool :=
  (span entry hardCap).all fun source =>
    (img.readWord source).isSome ∧
      ¬((directTargetAt img source).any (fun target => protectedPc < target ∧ target ≤ jrPc) ∧
        (source < protectedPc ∨ jrPc < source) ∧ (scheduledBase = true ∨ source ∉ reach))

def resolveExactBoundedJumpTable (jrPc : Word) (jrRs : Reg) (producer : Word × Word) :
    Option ExactJumpTable := do
  guard (entry < hardCap ∧ entry ≤ jrPc ∧ jrPc < hardCap ∧ entry &&& 3 = 0 ∧ hardCap &&& 3 = 0 ∧
    jrPc &&& 3 = 0 ∧ jrRs ≠ 0 ∧ jrRs ≠ 31)
  let (producerLo, producerHi) := if producer = (0, 0) then (img.load, img.analysisEnd) else producer
  guard (producerLo < producerHi ∧ producerLo &&& 3 = 0 ∧ producerHi &&& 3 = 0)
  guard (isJr img jrPc jrRs)
  let d ← matchDispatch img entry hardCap jrPc jrRs
  let b ← baseDef img entry d
  let base : ℤ := b.upper.toNat + (if b.lowPc ≠ 0 then b.low.toInt else 0) + d.lwOffset.toInt
  guard (0 ≤ base ∧ base ≤ 0xFFFFFFFF ∧ base % 4 = 0 ∧ base + 4 * d.count.toNat ≤ 0x100000000)
  let runtimeBase := BitVec.ofInt 32 base
  let targets ← (List.range d.count.toNat).mapM fun i =>
    tableTarget img mapped entry hardCap producerLo producerHi jrPc d runtimeBase (BitVec.ofNat 32 i)
  let reach := caseReachable img entry hardCap producerLo producerHi (targets.map Prod.snd) ∅
  guard (entryProtected img entry hardCap jrPc (if d.scheduledBase then d.boundPc else b.luiPc)
    d.scheduledBase reach)
  return { tableBase := runtimeBase, tableCount := d.count, targets, stride := 0, selfLimited := false }

/-! ## The computed stride -/

/-- `nearest_def`: the nearest write in front of a use, through straight-line code. -/
def nearestDef (reg : Reg) : ℕ → Word → Option Word
  | 0, _ => none
  | n + 1, pc =>
    if reg = 0 ∨ pc < entry + 4 then none
    else
      match img.readWord (pc - 4) with
      | none => none
      | some word =>
        if isControl (pc - 4) word then none
        else if exactInstructionWritesGpr word reg then some (pc - 4)
        else nearestDef reg n (pc - 4)

/-- The word at the nearest definition, with its address. -/
def nearestDefWord (reg : Reg) (usePc : Word) (window : ℕ) : Option (Word × Word) :=
  (nearestDef img entry reg window usePc).bind fun pc => (img.readWord pc).map fun word => (pc, word)

/-- `addu rd, rs, rt` -/
def isAddu (w : Word) : Bool :=
  opField w = 0x00 ∧ functField w = 0x21 ∧ shamtField w = 0 ∧ rdField w ≠ 0

/-- `sll rd, idx, sh` -/
def isSll (w : Word) : Bool :=
  opField w = 0x00 ∧ functField w = 0x00 ∧ rsField w = 0 ∧ rdField w ≠ 0 ∧ rtField w ≠ 0 ∧ w ≠ 0

/-- `scaled_stride`, 0 for none. -/
def scaledStride (sReg : Reg) (usePc : Word) : ℕ :=
  match nearestDefWord img entry sReg usePc 8 with
  | none => 0
  | some (defPc, w) =>
    if isSll w then
      let sh := (shamtField w).toNat
      if 2 ≤ sh ∧ sh ≤ 8 then 2 ^ sh else 0
    else
      let p := rsField w
      let q := rtField w
      if isAddu w = false ∨ p = q ∨ p = 0 ∨ q = 0 then 0
      else
        match nearestDefWord img entry p defPc 8, nearestDefWord img entry q defPc 8 with
        | some (pPc, pw), some (qPc, qw) =>
          let pSh := (shamtField pw).toNat
          let qSh := (shamtField qw).toNat
          if isSll pw = false ∨ isSll qw = false ∨ rtField pw ≠ rtField qw ∨ pSh = qSh ∨ 8 < pSh ∨ 8 < qSh then 0
          else if writesBetween img (min pPc qPc + 4) (max pPc qPc) (rtField pw) then 0
          else 2 ^ pSh + 2 ^ qSh
        | _, _ => 0

/-- The opcode and registers of an I-type word, the whole of any other. -/
def shape (w : Word) : Word :=
  if opField w ∈ ([0x00, 0x01, 0x02, 0x03, 0x10, 0x12] : List (BitVec 6)) then w else w &&& 0xFFFF0000

/-- A group of the run has the shape of the first. -/
def sameGroup (runStart : Word) (stride k : ℕ) : Bool :=
  (List.range (stride / 4)).all fun i =>
    (img.readWord (runStart + BitVec.ofNat 32 (k * stride + 4 * i))).any fun w =>
      (img.readWord (runStart + BitVec.ofNat 32 (4 * i))).any fun w₀ => shape w = shape w₀

def resolveComputedStrideJump (jrPc : Word) (jrRs : Reg) : Option ExactJumpTable := do
  guard (entry < hardCap ∧ entry ≤ jrPc ∧ jrPc + 8 < hardCap ∧ entry &&& 3 = 0 ∧ hardCap &&& 3 = 0 ∧
    jrPc &&& 3 = 0 ∧ jrRs ≠ 0 ∧ jrRs ≠ 31)
  guard (isJr img jrPc jrRs)
  let (adduPc, addu) ← nearestDefWord img entry jrRs jrPc 8
  guard (isAddu addu ∧ rsField addu ≠ rtField addu ∧ rsField addu ≠ 0 ∧ rtField addu ≠ 0)
  let first := scaledStride img entry (rtField addu) adduPc
  let stride := if first = 0 then scaledStride img entry (rsField addu) adduPc else first
  guard (stride ≠ 0 ∧ stride % 4 = 0 ∧ stride ≤ 256)
  let runStart := jrPc + 8
  -- the groups that fit under the cap
  let fit := (hardCap - runStart).toNat / stride
  guard (1 ≤ fit)
  let group ← (List.range (stride / 4)).mapM fun i =>
    let pc := runStart + BitVec.ofNat 32 (4 * i)
    (img.readWord pc).filter fun w => isControl pc w = false
  guard (group.any (· ≠ 0))
  let groups := 1 + (((List.range (fit - 1)).map (· + 1)).takeWhile (sameGroup img runStart stride)).length
  guard (2 ≤ groups)
  let starts := ((List.range (groups + 1)).map fun k => runStart + BitVec.ofNat 32 (k * stride)).takeWhile (· < hardCap)
  return { tableBase := runStart, tableCount := BitVec.ofNat 32 starts.length
           targets := starts.map fun t => (t, mapped t), stride := BitVec.ofNat 32 stride, selfLimited := false }

/-! ## The self-limited table -/

/-- `constant_of` -/
def constantOf (reg : Reg) (usePc : Word) : Option Word := do
  let (loPc, lo) ← nearestDefWord img entry reg usePc 6
  guard ((opField lo = 0x0D ∨ opField lo = 0x09) ∧ rtField lo = reg ∧ rsField lo = reg)
  let (_, hi) ← nearestDefWord img entry reg loPc 6
  guard (opField hi = 0x0F ∧ rtField hi = reg)
  let v := imm16Field hi <<< 16
  return if opField lo = 0x0D then v ||| imm16Field lo else v + simm16Field lo

/-- The words of the table, up to the lowest target seen. -/
def limitedTargets (jrPc imageBase : Word) : ℕ → Word → Word → List (Word × Word)
  | 0, _, _ => []
  | n + 1, i, lowest =>
    let slot := imageBase + i * 4
    if lowest ≤ slot ∨ hardCap < slot + 4 then []
    else
      match img.readWord slot with
      | none => []
      | some runtimeTarget =>
        let target := mapped runtimeTarget
        if target &&& 3 ≠ 0 ∨ target < entry ∨ hardCap ≤ target ∨ target = jrPc + 4 ∨
            inDelaySlot img entry target then []
        else if (img.readWord target).any isValidMipsWord = false then []
        else if imageBase ≤ target ∧ target ≤ slot then []
        else (runtimeTarget, target) :: limitedTargets jrPc imageBase n (i + 1) (min lowest target)

def resolveSelfLimitedJumpTable (jrPc : Word) (jrRs : Reg) : Option ExactJumpTable := do
  guard (entry < hardCap ∧ entry ≤ jrPc ∧ jrPc + 8 ≤ hardCap ∧ entry &&& 3 = 0 ∧ hardCap &&& 3 = 0 ∧
    jrPc &&& 3 = 0 ∧ jrRs ≠ 0 ∧ jrRs ≠ 31)
  guard (isJr img jrPc jrRs)
  let (lwPc, lw) ← nearestDefWord img entry jrRs jrPc 2
  guard (opField lw = 0x23 ∧ rtField lw = jrRs ∧ rsField lw ≠ 0)
  let (adduPc, au) ← nearestDefWord img entry (rsField lw) lwPc 6
  let a := rsField au
  let b := rtField au
  guard (opField au = 0x00 ∧ functField au = 0x21 ∧ shamtField au = 0 ∧ rdField au = rsField lw ∧
    a ≠ 0 ∧ b ≠ 0 ∧ a ≠ b)
  let base ← constantOf img entry a adduPc <|> constantOf img entry b adduPc
  let runtimeBase := base + simm16Field lw
  let imageBase := mapped runtimeBase
  guard (imageBase &&& 3 = 0 ∧ entry ≤ imageBase ∧ imageBase < hardCap)
  let targets := limitedTargets img mapped entry hardCap jrPc imageBase 256 0 hardCap
  guard (2 ≤ targets.length)
  return { tableBase := runtimeBase, tableCount := BitVec.ofNat 32 targets.length, targets, stride := 0
           selfLimited := true }

end Resolvers

end PsxRecomp.Analysis
